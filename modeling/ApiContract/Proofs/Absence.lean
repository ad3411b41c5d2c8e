import ApiContract.Documentation.Operation
import ApiContract.Proofs.Induction

/-!
# What may be left out

The document calls a value optional if its node, or the node behind the refinements of its node, has a
default or is nullable. Input that lacks a property gets the outermost default of the wrappers around it. The
two agree but for two shapes (`acceptsAbsence_iff`): a nullable node without a default, which is called
optional and for which nothing stands in, and a default that only a refinement further inside declares, which
is overlooked.
-/

namespace ApiContract

namespace Schema

variable {s : Schema}

/-- A default of the node itself is found first. -/
theorem declaredDefault_of_default? {d : Value} (h : s.default? = some d) : s.declaredDefault = some d := by
  cases s with
  | nullable a inner =>
      have ha : a.default = some d := h
      rw [declaredDefault, ha, Option.some_or]
  | refined a r base =>
      have ha : a.default = some d := h
      rw [declaredDefault, ha, Option.some_or]
  | _ => exact h

/-- A default behind refinements is found, unless a refinement has its own. -/
theorem declaredDefault_of_unwrap {d : Value} (h : s.unwrap.declaredDefault = some d) :
    ∃ d', s.declaredDefault = some d' := by
  induction s using Schema.induction with
  | refined a r base ih =>
      obtain ⟨d', hd⟩ := ih h
      rw [declaredDefault, hd]
      cases a.default with
      | none => exact ⟨d', rfl⟩
      | some own => exact ⟨own, rfl⟩
  | _ => exact ⟨d, h⟩

/-- The node admits null, behind its refinements. -/
def AdmitsNull (s : Schema) : Prop := ∃ a inner, s.unwrap = .nullable a inner

/-- An object behind refinements does not admit null. -/
theorem not_admitsNull_of_object (h : s.object?.isSome) : ¬ s.AdmitsNull := by
  rintro ⟨a, inner, hnode⟩
  rw [object?, hnode] at h
  cases h

/-- A value of this node may be null, and nothing stands in for one that is left out. -/
def NullableOnly (s : Schema) : Prop := s.AdmitsNull ∧ s.declaredDefault = none

/-- The default of this node is declared only by a refinement that is neither the node itself nor the node
behind its refinements. -/
def HidesDefault (s : Schema) : Prop :=
  (∃ d, s.declaredDefault = some d) ∧ s.default? = none ∧ s.unwrap.default? = none ∧ ¬ s.AdmitsNull

end Schema

namespace Documentation

open Schema

variable {s : Schema}

theorem standsForAbsence_iff : standsForAbsence s = true ↔
    (∃ a inner, s = .nullable a inner) ∨ ∃ d, s.default? = some d := by
  rw [← Option.isSome_iff_exists]
  cases s with
  | nullable a inner => exact ⟨fun _ => .inl ⟨a, inner, rfl⟩, fun _ => rfl⟩
  | _ => exact ⟨.inr, fun h => h.resolve_left (by simp)⟩

/-- A node counts as optional exactly if it admits null, or has a default, or has one behind its
refinements. -/
theorem acceptsAbsence_eq_true_iff : acceptsAbsence s = true ↔
    s.AdmitsNull ∨ (∃ d, s.default? = some d) ∨ ∃ d, s.unwrap.default? = some d := by
  rw [acceptsAbsence, Bool.or_eq_true, standsForAbsence_iff, standsForAbsence_iff]
  constructor
  · rintro ((⟨a, inner, rfl⟩ | hd) | (hn | hd))
    · exact .inl ⟨a, inner, rfl⟩
    · exact .inr (.inl hd)
    · exact .inl hn
    · exact .inr (.inr hd)
  · rintro (hn | hd | hd)
    · exact .inr (.inl hn)
    · exact .inl (.inr hd)
    · exact .inr (.inr hd)

/-- What counts as optional is what a default stands in for, but for the two shapes where they differ. -/
theorem acceptsAbsence_iff :
    (acceptsAbsence s = true ↔ ∃ d, s.declaredDefault = some d) ↔ ¬ (s.NullableOnly ∨ s.HidesDefault) := by
  by_cases hn : s.AdmitsNull
  · have haccepts : acceptsAbsence s = true := acceptsAbsence_eq_true_iff.mpr (.inl hn)
    rw [iff_true_left haccepts, ← Option.isSome_iff_exists, Option.isSome_iff_ne_none]
    constructor
    · rintro hsome (⟨-, hnone⟩ | ⟨-, -, -, hnot⟩)
      · exact hsome hnone
      · exact hnot hn
    · intro h hnone
      exact h (.inl ⟨hn, hnone⟩)
  · have hfound (h : acceptsAbsence s = true) : ∃ d, s.declaredDefault = some d := by
      rcases (acceptsAbsence_eq_true_iff.mp h).resolve_left hn with ⟨d, hd⟩ | ⟨d, hd⟩
      · exact ⟨d, declaredDefault_of_default? hd⟩
      · exact declaredDefault_of_unwrap (declaredDefault_of_default? hd)
    rw [or_iff_right fun h : s.NullableOnly => hn h.1]
    constructor
    · rintro hiff ⟨hd, hown, hinner, -⟩
      rcases (acceptsAbsence_eq_true_iff.mp (hiff.mpr hd)).resolve_left hn with ⟨d, h⟩ | ⟨d, h⟩
      · exact absurd (hown.symm.trans h) (by simp)
      · exact absurd (hinner.symm.trans h) (by simp)
    · intro hseen
      refine ⟨hfound, fun hd => ?_⟩
      by_cases haccepts : acceptsAbsence s = true
      · exact haccepts
      have hnot (d : Value) : s.default? ≠ some d ∧ s.unwrap.default? ≠ some d := by
        rw [acceptsAbsence_eq_true_iff] at haccepts
        exact ⟨fun h => haccepts (.inr (.inl ⟨d, h⟩)), fun h => haccepts (.inr (.inr ⟨d, h⟩))⟩
      exact absurd ⟨hd, Option.eq_none_iff_forall_ne_some.mpr fun d => (hnot d).1,
        Option.eq_none_iff_forall_ne_some.mpr fun d => (hnot d).2, hn⟩ hseen

/-- If no default is hidden, what counts as optional is what a default stands in for, or null. -/
theorem acceptsAbsence_iff_of_not_hidesDefault (h : ¬ s.HidesDefault) :
    acceptsAbsence s = true ↔ (∃ d, s.declaredDefault = some d) ∨ s.AdmitsNull := by
  by_cases hnull : s.AdmitsNull
  · exact iff_of_true (acceptsAbsence_eq_true_iff.mpr (.inl hnull)) (.inr hnull)
  · rw [or_iff_left hnull]
    exact acceptsAbsence_iff.mpr fun hshape => hshape.elim (fun honly => hnull honly.1) h

end Documentation

end ApiContract
