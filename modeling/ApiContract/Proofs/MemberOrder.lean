import Mathlib.Data.List.Lex
import ApiContract.Json.Writer
import ApiContract.Proofs.ListLemmas

/-!
# The order of members

Members with text keys can always be put in the order of their keys (`sortMembers_spec`): no member comes
or goes, and if the keys are pairwise different each precedes the next. So the order is determined by the
members alone, however they stood before (`sortMembers_perm`).
-/

namespace ApiContract

namespace Value

/-! ### Texts -/

/-- The code points of a text. -/
def codes (s : String) : List Nat := s.toList.map Char.toNat

theorem codes_injective : Function.Injective codes := by
  intro s t h
  have hchars : Function.Injective Char.toNat := by
    intro c d hcd
    exact Char.toNat_inj.mp hcd
  exact String.toList_inj.mp (List.map_injective_iff.mpr hchars h)

theorem compareLists_eq_lt_iff {xs ys : List Char} :
    compareLists (fun a b => compare a.toNat b.toNat) xs ys = .lt ↔
      xs.map Char.toNat < ys.map Char.toNat := by
  induction xs generalizing ys with
  | nil =>
      cases ys with
      | nil => simp [compareLists]
      | cons y ys => simp [compareLists]
  | cons x xs ih =>
      cases ys with
      | nil => simp [compareLists]
      | cons y ys =>
          rw [compareLists, List.map_cons, List.map_cons, List.cons_lt_cons_iff]
          rcases Nat.lt_trichotomy x.toNat y.toNat with h | h | h
          · simp [Nat.compare_eq_lt.mpr h, h]
          · simp [h, ih]
          · simp [Nat.compare_eq_gt.mpr h, Nat.not_lt.mpr (Nat.le_of_lt h), Nat.ne_of_gt h]

theorem compareLists_swap {α : Type} {cmp : α → α → Ordering} (hswap : ∀ a b, (cmp a b).swap = cmp b a)
    (xs ys : List α) : (compareLists cmp xs ys).swap = compareLists cmp ys xs := by
  induction xs generalizing ys with
  | nil => cases ys <;> rfl
  | cons x xs ih =>
      cases ys with
      | nil => rfl
      | cons y ys =>
          rw [compareLists, compareLists, ← hswap x y]
          cases cmp x y with
          | lt => rfl
          | eq => exact ih ys
          | gt => rfl

/-- A text does not come after another if its code points do not. -/
theorem compareText_ne_gt_iff {a b : String} :
    (compareText a b != .gt) = true ↔ codes a ≤ codes b := by
  have hswap : (compareText b a).swap = compareText a b :=
    compareLists_swap (fun c d => Nat.compare_swap c.toNat d.toNat) _ _
  rw [bne_iff_ne, ← hswap, Ne, Ordering.swap_eq_gt, compareText, compareLists_eq_lt_iff]
  exact not_lt

/-- A text is less than another if its code points are. -/
theorem isLess_str (a b : String) : (Value.str a).isLess (.str b) = .ok (decide (codes a < codes b)) := by
  have hiff : (compareText a b == .lt) = decide (codes a < codes b) := by
    rw [Bool.eq_iff_iff, beq_iff_eq, decide_eq_true_iff]
    exact compareLists_eq_lt_iff
  rw [← hiff]
  show Except.ok (some (compareText a b) == some .lt) = _
  rfl

end Value

namespace Json

/-! ### Members -/

/-- Every member has a text key. -/
def TextKeys (ms : List Member) : Prop := ∀ m ∈ ms, ∃ name, m.1 = .str name

/-- The key of the first member is less than that of the second. -/
def Precedes (m n : Member) : Prop := m.1.isLess n.1 = .ok true

theorem precedes_iff {m n : Member} {a b : String} (hm : m.1 = .str a) (hn : n.1 = .str b) :
    Precedes m n ↔ Value.codes a < Value.codes b := by
  rw [Precedes, hm, hn, Value.isLess_str]
  simp

theorem Precedes.trans {m n k : Member} (hk : ∃ c, k.1 = .str c) (hm : ∃ a, m.1 = .str a)
    (hn : ∃ b, n.1 = .str b) (h : Precedes m n) (h' : Precedes n k) : Precedes m k := by
  obtain ⟨a, hm⟩ := hm
  obtain ⟨b, hn⟩ := hn
  obtain ⟨c, hk⟩ := hk
  rw [precedes_iff hm hn] at h
  rw [precedes_iff hn hk] at h'
  rw [precedes_iff hm hk]
  exact lt_trans h h'

/-- A member goes before the first whose key is greater. -/
theorem insertByKey_spec {m : Member} {ms : List Member} (hm : ∃ name, m.1 = .str name)
    (hms : TextKeys ms) :
    ∃ ms', insertByKey m ms = .ok ms' ∧ ms'.Perm (m :: ms) ∧
      (ms.Pairwise Precedes → m.1 ∉ ms.map (·.1) → ms'.Pairwise Precedes) := by
  induction ms with
  | nil => exact ⟨[m], rfl, .refl _, fun _ _ => List.pairwise_singleton _ m⟩
  | cons n ms ih =>
      obtain ⟨hn, hms⟩ := List.forall_mem_cons.mp hms
      obtain ⟨a, ha⟩ := hm
      obtain ⟨b, hb⟩ := hn
      have hless : m.1.isLess n.1 = .ok (decide (Value.codes a < Value.codes b)) := by
        rw [ha, hb, Value.isLess_str]
      by_cases hlt : Value.codes a < Value.codes b
      · have hprecedes : Precedes m n := (precedes_iff ha hb).mpr hlt
        refine ⟨m :: n :: ms, ?_, .refl _, fun hsorted _ => List.pairwise_cons.mpr ⟨?_, hsorted⟩⟩
        · rw [insertByKey, hless, decide_eq_true hlt]
          rfl
        · rintro k (_ | ⟨_, hk⟩)
          · exact hprecedes
          · exact hprecedes.trans (hms k hk) ⟨a, ha⟩ ⟨b, hb⟩ ((List.pairwise_cons.mp hsorted).1 k hk)
      · obtain ⟨ms', hinsert, hperm, hsorted'⟩ := ih hms
        refine ⟨n :: ms', ?_, (hperm.cons n).trans (.swap m n ms), fun hsorted hnew => ?_⟩
        · rw [insertByKey, hless, decide_eq_false hlt]
          exact bind_eq_ok_iff.mpr ⟨false, rfl, bind_eq_ok_iff.mpr ⟨ms', hinsert, rfl⟩⟩
        · rw [List.map_cons, List.mem_cons, not_or] at hnew
          obtain ⟨hfirst, hrest⟩ := List.pairwise_cons.mp hsorted
          refine List.pairwise_cons.mpr ⟨fun k hk => ?_, hsorted' hrest hnew.2⟩
          rcases List.mem_cons.mp (hperm.mem_iff.mp hk) with rfl | hk
          · -- the keys differ, so the one that is not less is greater
            rw [precedes_iff hb ha]
            refine lt_of_le_of_ne (not_lt.mp hlt) fun heq => hnew.1 ?_
            rw [ha, hb, Value.codes_injective heq]
          · exact hfirst k hk

theorem foldlM_insertByKey {ms sorted : List Member} (hms : TextKeys ms) (hsorted : TextKeys sorted) :
    ∃ ms', ms.foldlM (fun sorted m => insertByKey m sorted) sorted = .ok ms' ∧ ms'.Perm (ms ++ sorted) ∧
      (sorted.Pairwise Precedes → ((ms ++ sorted).map (·.1)).Nodup → ms'.Pairwise Precedes) := by
  -- what has been inserted stays in order as long as the next key is new
  induction ms generalizing sorted with
  | nil => exact ⟨sorted, rfl, .refl _, fun h _ => h⟩
  | cons m ms ih =>
      obtain ⟨hm, hms⟩ := List.forall_mem_cons.mp hms
      obtain ⟨inserted, hinsert, hperm, hpairwise⟩ := insertByKey_spec hm hsorted
      have htext : TextKeys inserted := fun k hk =>
        (List.mem_cons.mp (hperm.mem_iff.mp hk)).elim (fun h => h ▸ hm) (hsorted k)
      obtain ⟨ms', hfold, hperm', hpairwise'⟩ := ih hms htext
      have hjoined : (ms ++ inserted).Perm (m :: ms ++ sorted) :=
        (hperm.append_left ms).trans List.perm_middle
      refine ⟨ms', ?_, hperm'.trans hjoined, fun hs hnodup => hpairwise' (hpairwise hs ?_) ?_⟩
      · rw [List.foldlM_cons]
        exact bind_eq_ok_iff.mpr ⟨inserted, hinsert, hfold⟩
      · intro hmem
        rw [List.cons_append, List.map_cons, List.nodup_cons, List.map_append] at hnodup
        exact hnodup.1 (List.mem_append_right _ hmem)
      · exact (hjoined.map (·.1)).nodup_iff.mpr hnodup

/-- Members with text keys can be put in order: they are the same members, and if no key comes twice each
precedes the next. -/
theorem sortMembers_spec {ms : List Member} (hms : TextKeys ms) :
    ∃ ms', sortMembers ms = .ok ms' ∧ ms'.Perm ms ∧
      ((ms.map (·.1)).Nodup → ms'.Pairwise Precedes) := by
  have hnil : TextKeys [] := List.forall_mem_nil _
  obtain ⟨ms', hsort, hperm, hpairwise⟩ := foldlM_insertByKey hms hnil
  rw [List.append_nil] at hperm hpairwise
  exact ⟨ms', hsort, hperm, hpairwise List.Pairwise.nil⟩

/-- The order of members with different keys does not depend on how they stood before. -/
theorem sortMembers_perm {ms ns : List Member} (hms : TextKeys ms) (hnodup : (ms.map (·.1)).Nodup)
    (hperm : ms.Perm ns) : sortMembers ms = sortMembers ns := by
  have hns : TextKeys ns := fun m hm => hms m (hperm.mem_iff.mpr hm)
  obtain ⟨ms', hsort, hms', hpairwise⟩ := sortMembers_spec hms
  obtain ⟨ns', hsort', hns', hpairwise'⟩ := sortMembers_spec hns
  rw [hsort, hsort']
  have hkeys : (ns.map (·.1)).Nodup := (hperm.map (·.1)).nodup_iff.mp hnodup
  refine congrArg Except.ok (List.Perm.eq_of_pairwise ?_ (hpairwise hnodup) (hpairwise' hkeys)
    (hms'.trans (hperm.trans hns'.symm)))
  intro m n hm hn h h'
  obtain ⟨a, ha⟩ := hms m (hms'.mem_iff.mp hm)
  obtain ⟨b, hb⟩ := hns n (hns'.mem_iff.mp hn)
  rw [precedes_iff ha hb] at h
  rw [precedes_iff hb ha] at h'
  exact absurd h' (lt_asymm h)

end Json

end ApiContract
