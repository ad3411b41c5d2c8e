import ApiContract.Proofs.FilledShapes
import ApiContract.Proofs.MissingProperties

/-!
# What becomes of an empty body

An empty JSON body is absent: its default stands in for it, or else null. An empty form is a mapping without
entries: the defaults of its properties stand in for them. Where every default is valid for the schema that declares
it, an empty JSON body is accepted exactly if it has a default or may be null, and what stands in for it is approved
(`Pipeline.apply_absent_iff`); an empty form is accepted exactly if every required property has a default, and what
is filled in is approved (`Pipeline.apply_nothing_iff`).
-/

namespace ApiContract

namespace Schema

variable {s : Schema} {v : Value}

/-! ### Null -/

/-- Refinements do not count for the shape. -/
theorem hasShape_unwrap (s : Schema) (v : Value) : s.unwrap.HasShape v ↔ s.HasShape v := by
  induction s using Schema.induction with
  | refined a r base ih => exact ih
  | _ => exact Iff.rfl

theorem hasShape_null (h : s.AdmitsNull) : s.HasShape .null := by
  obtain ⟨a, inner, hnode⟩ := h
  rw [← hasShape_unwrap, hnode]
  exact .inl rfl

theorem admitsNull_of_satisfies (h : s.Satisfies .null) : s.AdmitsNull := by
  have hnode := h.unwrap
  cases hunwrap : s.unwrap with
  | nullable a inner => exact ⟨a, inner, hunwrap⟩
  | refined a r base => exact absurd hunwrap (unwrap_ne_refined s a r base)
  | string a f =>
      rw [hunwrap] at hnode
      obtain ⟨text, ⟨⟩, -⟩ := hnode
  | number a f =>
      rw [hunwrap] at hnode
      obtain ⟨⟨n, ⟨⟩⟩ | ⟨x, ⟨⟩, -⟩, -⟩ := hnode
  | integer a f =>
      rw [hunwrap] at hnode
      obtain ⟨⟨n, ⟨⟩⟩, -⟩ := hnode
  | boolean a =>
      rw [hunwrap] at hnode
      obtain ⟨b, ⟨⟩⟩ := hnode
  | array a f items =>
      rw [hunwrap] at hnode
      obtain ⟨xs, ⟨⟩, -⟩ := hnode
  | object a f ps =>
      rw [hunwrap] at hnode
      obtain ⟨entries, ⟨⟩, -⟩ := hnode
  | bare a =>
      rw [hunwrap] at hnode
      exact hnode.elim
  | foreign u =>
      rw [hunwrap] at hnode
      exact hnode.elim

/-! ### Objects without entries -/

/-- Every required property of the object behind the refinements has a default. -/
def RequiredFilled (s : Schema) : Prop :=
  ∀ f ps, s.object? = some (f, ps) → ∀ p ∈ ps, p.1 ∈ requiredKeys f ps → ∃ d, p.2.declaredDefault = some d

/-- A mapping without entries becomes one of the shape of an object, if every required property has a default. -/
theorem shapes_nothing (textual : Bool) (hnamed : s.Named) (hobject : s.object?.isSome)
    (hdefaults : s.Everywhere DefaultValid) (hfilled : s.RequiredFilled) : Shapes textual s (.dict []) := by
  obtain ⟨⟨f, ps⟩, hobject⟩ := Option.isSome_iff_exists.mp hobject
  obtain ⟨a, hnode⟩ := object?_eq_some hobject
  have hinner : (Schema.object a f ps).Named := hnode ▸ hnamed.unwrap
  have hproperties := (everywhere_object.mp (hnode ▸ hdefaults.unwrap)).2
  have hmissing : ∀ p ∈ ps, ∀ d, p.2.declaredDefault = some d → Shapes textual p.2 d := by
    intro p hp d hd
    obtain ⟨hd', hshape⟩ := hasShape_declaredDefault (hproperties p hp) hd
    exact exists_convert_fill (hinner.property hp) (hproperties p hp) hd' hshape
  have hempty : Value.KeysDiffer [] := .nil
  obtain ⟨es, hconvert, hkeys, hes⟩ := exists_convert_entries textual a f hinner.names hempty
    (fun p _ v hv => by cases hv) hmissing
  refine ⟨.dict es, ?_, (hasShape_unwrap _ _).mp ?_⟩
  · rw [← convert_unwrap, ← fill_unwrap, hnode]
    exact hconvert
  rw [hnode]
  refine ⟨es, rfl, fun key hkey => ?_, hes, fun _ e he => ?_⟩
  · obtain ⟨p, hp, rfl⟩ := List.mem_map.mp (requiredKeys_subset f ps hkey)
    obtain ⟨d, hd⟩ := hfilled f ps hobject p hp hkey
    rw [hasKey_congr hkeys, hasKey_fillProperties hinner.names hp, hd]
    exact Bool.or_true _
  · have hkey : e.1 ∈ (fillProperties ps []).map (·.1) := hkeys ▸ List.mem_map_of_mem he
    exact declared_of_mem_filled hinner.names (List.forall_mem_nil _) hkey

end Schema

namespace Pipeline

open Schema

/-- What an empty body is read as. -/
def emptyBody : Target → Value
  | .json => .absent
  | _ => .dict []

/-- What becomes of an empty body before it is checked. -/
def standIn (t : Target) (s : Schema) : Except Fault Value :=
  s.convertFor (some t) (nullIfAbsent (s.applyDefaults (emptyBody t)))

/-- No predicate refuses what becomes of an empty body, and the items in it that have to differ do. -/
def EmptyApproved (t : Target) (s : Schema) : Prop := ∀ w, standIn t s = .ok w → s.Approves w

variable {p : Pipeline} {t : Target}

/-- An empty body is accepted if what becomes of it satisfies the schema. -/
theorem apply_emptyBody_iff (hcompile : p.schema.compile = .ok p.validator)
    (hclean : p.schema.cleanFor (some t) (emptyBody t) = .ok (emptyBody t)) :
    (∃ data, p.apply t (emptyBody t) = .ok (.success data)) ↔
      ∃ w, standIn t p.schema = .ok w ∧ p.schema.Satisfies w := by
  refine exists_congr fun w => ?_
  rw [apply_eq_success_iff]
  constructor
  · rintro ⟨cleaned, hcleaned, hconvert, htrace⟩
    obtain rfl := Except.ok.inj (hclean.symm.trans hcleaned)
    exact ⟨hconvert, (isClean_run_iff hcompile w "").mp htrace⟩
  · rintro ⟨hconvert, hsat⟩
    exact ⟨_, hclean, hconvert, (isClean_run_iff hcompile w "").mpr hsat⟩

/-- What becomes of an empty body satisfies the schema if it has its shape and is approved. -/
theorem satisfies_standIn_iff {s : Schema} {w : Value} (hstand : standIn t s = .ok w) (hshape : s.HasShape w) :
    (∃ w, standIn t s = .ok w ∧ s.Satisfies w) ↔ EmptyApproved t s := by
  constructor
  · rintro ⟨w₁, hw₁, hsat⟩ w₂ hw₂
    obtain rfl := Except.ok.inj (hw₁.symm.trans hw₂)
    exact (satisfies_iff.mp hsat).2
  · intro happroved
    exact ⟨w, hstand, satisfies_iff.mpr ⟨hshape, happroved w hstand⟩⟩

/-- **An absent value is accepted exactly if it has a default or may be null**, and what stands in for it is
approved. -/
theorem apply_absent_iff (hcompile : p.schema.compile = .ok p.validator) (honce : p.schema.Everywhere DeclaresOnce)
    (hdefaults : p.schema.Everywhere DefaultValid) :
    (∃ data, p.apply .json (emptyBody .json) = .ok (.success data)) ↔
      ((∃ d, p.schema.declaredDefault = some d) ∨ p.schema.AdmitsNull) ∧ EmptyApproved .json p.schema := by
  rw [apply_emptyBody_iff hcompile (cleanFor_absent p.schema _)]
  cases hd : p.schema.declaredDefault with
  | some d =>
      obtain ⟨hd', hshape⟩ := hasShape_declaredDefault hdefaults hd
      obtain ⟨w, hconvert, hw⟩ := exists_convert_fill (named_of_compileAt hcompile honce) hdefaults hd' hshape
      have hfilled : nullIfAbsent (p.schema.applyDefaults .absent) = p.schema.fill d := by
        rw [applyDefaults_absent hd, nullIfAbsent, if_neg]
        intro habsent
        rw [eq_absent_of_fill (isAbsent_iff.mp habsent)] at hshape
        exact Bool.noConfusion (isAbsent_of_hasShape hshape)
      have hstand : standIn .json p.schema = .ok w := by
        rw [standIn, emptyBody, hfilled]
        exact hconvert
      rw [satisfies_standIn_iff hstand hw]
      exact (and_iff_right (.inl ⟨d, rfl⟩)).symm
  | none =>
      have hstand : standIn .json p.schema = .ok .null := by
        rw [standIn, emptyBody, applyDefaults, orDefault, hd]
        show p.schema.convertFor _ (nullIfAbsent (p.schema.fill .absent)) = _
        rw [fill_absent hd]
        exact convert_null p.schema
      rw [or_iff_right (by simp)]
      constructor
      · rintro ⟨w, hw, hsat⟩
        obtain rfl := Except.ok.inj (hstand.symm.trans hw)
        have hnull := admitsNull_of_satisfies hsat
        exact ⟨hnull, (satisfies_standIn_iff hstand (hasShape_null hnull)).mp ⟨_, hw, hsat⟩⟩
      · rintro ⟨hnull, happroved⟩
        exact (satisfies_standIn_iff hstand (hasShape_null hnull)).mpr happroved

/-- **A mapping without entries is accepted exactly if every required property has a default**, and what is filled in
is approved. -/
theorem apply_nothing_iff (hcompile : p.schema.compile = .ok p.validator) (honce : p.schema.Everywhere DeclaresOnce)
    (hobject : p.schema.object?.isSome) (hdefaults : p.schema.Everywhere DefaultValid) :
    (∃ data, p.apply .form (emptyBody .form) = .ok (.success data)) ↔
      p.schema.RequiredFilled ∧ EmptyApproved .form p.schema := by
  have hnamed := named_of_compileAt hcompile honce
  have hclean : p.schema.cleanFor (some .form) (.dict []) = .ok (.dict []) := by
    obtain ⟨⟨f, ps⟩, hfound⟩ := Option.isSome_iff_exists.mp hobject
    obtain ⟨a, hnode⟩ := object?_eq_some hfound
    rw [cleanFor, if_neg (by decide), ← clean_unwrap, hnode]
    rfl
  have hstands : standIn .form p.schema = p.schema.convert true (p.schema.fill (.dict [])) := by
    have hfilled : p.schema.applyDefaults (.dict []) = p.schema.fill (.dict []) :=
      applyDefaults_of_isAbsent_eq_false _ rfl
    show p.schema.convert true (nullIfAbsent (p.schema.applyDefaults (.dict []))) = _
    rw [hfilled, nullIfAbsent, if_neg]
    intro habsent
    cases eq_absent_of_fill (isAbsent_iff.mp habsent)
  rw [apply_emptyBody_iff hcompile hclean]
  by_cases hfilled : p.schema.RequiredFilled
  · obtain ⟨w, hconvert, hw⟩ := shapes_nothing true hnamed hobject hdefaults hfilled
    rw [satisfies_standIn_iff (hstands.trans hconvert) hw, and_iff_right hfilled]
  · refine iff_of_false ?_ fun h => hfilled h.1
    rintro ⟨w, hw, hsat⟩
    refine hfilled fun f ps hfound q hq hneeded => ?_
    obtain ⟨a, hnode⟩ := object?_eq_some hfound
    have hinner : (Schema.object a f ps).Named := hnode ▸ hnamed.unwrap
    have hobject := hsat.unwrap
    rw [hnode] at hobject
    obtain ⟨es, rfl, hkeys, -⟩ := hobject
    obtain ⟨name, hname⟩ := hinner.names.texts q hq
    obtain ⟨es', hsame, hkey⟩ := exists_converted hinner.names hnode hq hname
      (by simp [Unmatched] : Unmatched .form name []) hclean hw
    obtain rfl := Value.dict.inj hsame
    rw [← Option.isSome_iff_exists, ← hkey, ← hname]
    exact hkeys _ hneeded

end Pipeline

end ApiContract
