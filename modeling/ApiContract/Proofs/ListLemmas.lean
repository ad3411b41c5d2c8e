import Mathlib.Data.List.Forall2
import Mathlib.Data.List.Induction
import ApiContract.Fault

/-!
# Lists and results

Generic facts about lists and about results that may be faults: nothing here mentions schemas. A row of
steps that may fail succeeds exactly if each step does (`mapM_eq_ok_iff`), and a list keeps its length
under removal of repetitions exactly if it has none (`length_eraseDups_eq_iff`).
-/

namespace ApiContract

variable {α β γ ε : Type}

theorem bind_eq_ok_iff {x : Except ε α} {f : α → Except ε β} {b : β} :
    x >>= f = .ok b ↔ ∃ a, x = .ok a ∧ f a = .ok b := by
  cases x with
  | error e => simp [bind, Except.bind]
  | ok a => simp [bind, Except.bind]

theorem bind_eq_error_iff {x : Except ε α} {f : α → Except ε β} {e : ε} :
    x >>= f = .error e ↔ x = .error e ∨ ∃ a, x = .ok a ∧ f a = .error e := by
  cases x with
  | error e' => simp [bind, Except.bind]
  | ok a => simp [bind, Except.bind]

theorem map_eq_ok_iff {x : Except ε α} {f : α → β} {b : β} :
    x.map f = .ok b ↔ ∃ a, x = .ok a ∧ f a = b := by
  cases x with
  | error e => simp [Except.map]
  | ok a => simp [Except.map]

/-! ### Lists related place by place -/

theorem exists_right_of_forall₂ {R : α → β → Prop} {xs : List α} {ys : List β}
    (h : List.Forall₂ R xs ys) {x : α} (hx : x ∈ xs) : ∃ y ∈ ys, R x y := by
  induction h with
  | nil => simp at hx
  | cons hr _ ih =>
      rcases List.mem_cons.mp hx with rfl | hx
      · exact ⟨_, List.mem_cons_self, hr⟩
      · obtain ⟨y, hy, hxy⟩ := ih hx
        exact ⟨y, List.mem_cons_of_mem _ hy, hxy⟩

theorem exists_left_of_forall₂ {R : α → β → Prop} {xs : List α} {ys : List β}
    (h : List.Forall₂ R xs ys) {y : β} (hy : y ∈ ys) : ∃ x ∈ xs, R x y :=
  exists_right_of_forall₂ (List.Forall₂.flip (R := flip R) h) hy

theorem forall₂_imp_of_mem_mem {R S : α → β → Prop} {xs : List α} {ys : List β}
    (h : List.Forall₂ R xs ys) (himp : ∀ x ∈ xs, ∀ y ∈ ys, R x y → S x y) : List.Forall₂ S xs ys := by
  induction h with
  | nil => exact .nil
  | cons hr _ ih =>
      exact .cons (himp _ List.mem_cons_self _ List.mem_cons_self hr)
        (ih fun x hx y hy => himp x (List.mem_cons_of_mem _ hx) y (List.mem_cons_of_mem _ hy))

theorem forall₂_imp_of_mem {R S : α → β → Prop} {xs : List α} {ys : List β}
    (h : List.Forall₂ R xs ys) (himp : ∀ x ∈ xs, ∀ y, R x y → S x y) : List.Forall₂ S xs ys :=
  forall₂_imp_of_mem_mem h fun x hx y _ => himp x hx y

theorem exists_forall₂ {R : α → β → Prop} {xs : List α} (h : ∀ x ∈ xs, ∃ y, R x y) :
    ∃ ys, List.Forall₂ R xs ys := by
  induction xs with
  | nil => exact ⟨[], .nil⟩
  | cons x xs ih =>
      obtain ⟨⟨y, hy⟩, hrest⟩ := List.forall_mem_cons.mp h
      obtain ⟨ys, hys⟩ := ih hrest
      exact ⟨y :: ys, .cons hy hys⟩

/-- What a selection takes stands beside what it is taken from. -/
theorem forall₂_filter_filterMap (g : α → Option β) (xs : List α) :
    List.Forall₂ (fun x y => g x = some y) (xs.filter fun x => (g x).isSome) (xs.filterMap g) := by
  induction xs with
  | nil => exact .nil
  | cons x xs ih =>
      cases hx : g x with
      | none => simpa [hx] using ih
      | some y => simpa [hx] using ih

theorem of_mem_zip_map {g : α → β} {xs : List α} {x : α} {y : β} (h : (x, y) ∈ xs.zip (xs.map g)) :
    x ∈ xs ∧ y = g x := by
  have hrow : List.Forall₂ (fun x y => y = g x) xs (xs.map g) := by
    rw [List.forall₂_map_right_iff, List.forall₂_same]
    intro x _
    rfl
  exact ⟨(List.of_mem_zip h).1, (List.forall₂_iff_zip.mp hrow).2 h⟩

theorem eq_map_of_zip {g : α → β} {xs : List α} {ys : List β} (hlength : xs.length = ys.length)
    (h : ∀ x y, (x, y) ∈ xs.zip ys → y = g x) : ys = xs.map g := by
  have hrow : List.Forall₂ (fun x y => g x = y) xs ys :=
    List.forall₂_iff_zip.mpr ⟨hlength, fun hxy => (h _ _ hxy).symm⟩
  rw [← List.forall₂_map_left_iff, List.forall₂_eq_eq_eq] at hrow
  exact hrow.symm

theorem eq_of_mem_zip {f : α → γ} {g : β → γ} {xs : List α} {ys : List β} (h : xs.map f = ys.map g) {x : α}
    {y : β} (hxy : (x, y) ∈ xs.zip ys) : f x = g y := by
  rw [← List.forall₂_eq_eq_eq, List.forall₂_map_left_iff, List.forall₂_map_right_iff] at h
  exact (List.forall₂_iff_zip.mp h).2 hxy

theorem exists_mem_zip {xs : List α} {ys : List β} (h : xs.length = ys.length) {x : α} (hx : x ∈ xs) :
    ∃ y, (x, y) ∈ xs.zip ys := by
  have hfst : (xs.zip ys).map Prod.fst = xs := List.map_fst_zip (Nat.le_of_eq h)
  rw [← hfst] at hx
  obtain ⟨⟨x', y⟩, hmem, rfl⟩ := List.mem_map.mp hx
  exact ⟨y, hmem⟩

/-- A relation between any two of a list is one between any two of a list related to it. -/
theorem pairwise_iff_of_forall₂ {R : α → β → Prop} {P : α → α → Prop} {Q : β → β → Prop} {xs : List α}
    {ys : List β} (h : List.Forall₂ R xs ys)
    (hiff : ∀ x ∈ xs, ∀ x' ∈ xs, ∀ y y', R x y → R x' y' → (P x x' ↔ Q y y')) :
    xs.Pairwise P ↔ ys.Pairwise Q := by
  induction h with
  | nil => simp
  | @cons x y xs ys hxy hxys ih =>
      rw [List.pairwise_cons, List.pairwise_cons]
      refine and_congr ⟨fun hall y' hy' => ?_, fun hall x' hx' => ?_⟩
        (ih fun a ha b hb => hiff a (List.mem_cons_of_mem _ ha) b (List.mem_cons_of_mem _ hb))
      · obtain ⟨x', hx', hxy'⟩ := exists_left_of_forall₂ hxys hy'
        exact (hiff x List.mem_cons_self x' (List.mem_cons_of_mem _ hx') y y' hxy hxy').mp (hall x' hx')
      · obtain ⟨y', hy', hxy'⟩ := exists_right_of_forall₂ hxys hx'
        exact (hiff x List.mem_cons_self x' (List.mem_cons_of_mem _ hx') y y' hxy hxy').mpr (hall y' hy')

/-- A row of steps succeeds with the results of the single steps. -/
theorem mapM_eq_ok_iff {f : α → Except ε β} {xs : List α} {ys : List β} :
    xs.mapM f = .ok ys ↔ List.Forall₂ (fun x y => f x = .ok y) xs ys := by
  induction xs generalizing ys with
  | nil =>
      rw [List.mapM_nil, List.forall₂_nil_left_iff]
      exact ⟨fun h => (Except.ok.inj h).symm, fun h => h ▸ rfl⟩
  | cons x xs ih =>
      rw [List.mapM_cons, bind_eq_ok_iff, List.forall₂_cons_left_iff]
      constructor
      · rintro ⟨y, hy, h⟩
        obtain ⟨ys', hys, h⟩ := bind_eq_ok_iff.mp h
        exact ⟨y, ys', hy, ih.mp hys, (Except.ok.inj h).symm⟩
      · rintro ⟨y, ys', hy, hys, rfl⟩
        exact ⟨y, hy, bind_eq_ok_iff.mpr ⟨ys', ih.mpr hys, rfl⟩⟩

theorem exists_mapM_eq_ok {f : α → Except ε β} {xs : List α} (h : ∀ x ∈ xs, ∃ y, f x = .ok y) :
    ∃ ys, xs.mapM f = .ok ys := by
  obtain ⟨ys, hys⟩ := exists_forall₂ h
  exact ⟨ys, mapM_eq_ok_iff.mpr hys⟩

/-- A row of steps succeeds if each step does. -/
theorem exists_mapM_iff {f : α → Except ε β} {xs : List α} :
    (∃ ys, xs.mapM f = .ok ys) ↔ ∀ x ∈ xs, ∃ y, f x = .ok y := by
  refine ⟨?_, exists_mapM_eq_ok⟩
  rintro ⟨ys, h⟩ x hx
  obtain ⟨y, -, hy⟩ := exists_right_of_forall₂ (mapM_eq_ok_iff.mp h) hx
  exact ⟨y, hy⟩

/-- A row of steps fails with the fault of the first step that does. -/
theorem mapM_eq_error_iff {f : α → Except ε β} {xs : List α} {e : ε} :
    xs.mapM f = .error e ↔
      ∃ before x after, xs = before ++ x :: after ∧ (∀ y ∈ before, ∃ b, f y = .ok b) ∧ f x = .error e := by
  induction xs with
  | nil =>
      rw [List.mapM_nil]
      constructor
      · intro h
        cases h
      · rintro ⟨before, x, after, hsplit, -⟩
        simp at hsplit
  | cons x xs ih =>
      rw [List.mapM_cons, bind_eq_error_iff]
      constructor
      · rintro (h | ⟨y, hy, h⟩)
        · exact ⟨[], x, xs, rfl, by simp, h⟩
        · obtain h | ⟨ys, -, h⟩ := bind_eq_error_iff.mp h
          · obtain ⟨before, z, after, rfl, hbefore, hz⟩ := ih.mp h
            exact ⟨x :: before, z, after, rfl, List.forall_mem_cons.mpr ⟨⟨y, hy⟩, hbefore⟩, hz⟩
          · cases h
      · rintro ⟨before, z, after, hsplit, hbefore, hz⟩
        cases before with
        | nil =>
            obtain ⟨rfl, rfl⟩ := List.cons.inj hsplit
            exact .inl hz
        | cons w before =>
            obtain ⟨rfl, rfl⟩ := List.cons.inj hsplit
            obtain ⟨⟨y, hy⟩, hbefore⟩ := List.forall_mem_cons.mp hbefore
            exact .inr ⟨y, hy, bind_eq_error_iff.mpr (.inl (ih.mpr ⟨before, z, after, rfl, hbefore, hz⟩))⟩

/-- A loop that never breaks off ends only if each of its steps does. -/
theorem forIn_eq_ok {f : α → PUnit.{1} → Except ε (ForInStep PUnit)} {xs : List α} {u : PUnit}
    (hyield : ∀ x ∈ xs, ∀ next, f x ⟨⟩ = .ok next → next = .yield ⟨⟩) (h : forIn xs PUnit.unit f = .ok u) :
    ∀ x ∈ xs, f x ⟨⟩ = .ok (.yield ⟨⟩) := by
  induction xs with
  | nil => exact List.forall_mem_nil _
  | cons x xs ih =>
      rw [List.forIn_cons] at h
      obtain ⟨next, hnext, h⟩ := bind_eq_ok_iff.mp h
      obtain rfl := hyield x List.mem_cons_self next hnext
      exact List.forall_mem_cons.mpr ⟨hnext, ih (fun x hx => hyield x (List.mem_cons_of_mem _ hx)) h⟩

theorem mapM_congr_of_forall₂ {f : α → Except ε β} {xs ys : List α}
    (h : List.Forall₂ (fun x y => f x = f y) xs ys) : xs.mapM f = ys.mapM f := by
  induction h with
  | nil => rfl
  | cons hxy _ ih => rw [List.mapM_cons, List.mapM_cons, hxy, ih]

/-- Speaking of all members of the joined lists is speaking of the members of each list. -/
theorem forall_mem_flatMap_iff {P : β → Prop} {Q : α → Prop} {g : α → List β} {xs : List α}
    (h : ∀ x ∈ xs, Q x ↔ ∀ y ∈ g x, P y) : (∀ x ∈ xs, Q x) ↔ ∀ y ∈ xs.flatMap g, P y := by
  simp only [List.mem_flatMap, forall_exists_index, and_imp]
  constructor
  · intro hall y x hx hy
    exact (h x hx).mp (hall x hx) y hy
  · intro hall x hx
    exact (h x hx).mpr fun y hy => hall y x hx hy

/-- A selection that leaves a list as it is leaves each of its members as it is. -/
theorem eq_some_of_filterMap_eq_self {f : α → Option α} {xs : List α} (h : xs.filterMap f = xs) :
    ∀ x ∈ xs, f x = some x := by
  induction xs with
  | nil => simp
  | cons x xs ih =>
      cases hx : f x with
      | none =>
          rw [List.filterMap_cons_none hx] at h
          have hlength := List.length_filterMap_le f xs
          rw [h, List.length_cons] at hlength
          omega
      | some y =>
          rw [List.filterMap_cons_some hx] at h
          obtain ⟨rfl, hrest⟩ := List.cons.inj h
          exact List.forall_mem_cons.mpr ⟨hx, ih hrest⟩

/-- Where each of a row has its own partner in another row that is no longer, the other row can be put in the
order of the partners. -/
theorem exists_perm_of_length_le {R : α → β → Prop} {xs : List α} {ys : List β} (hlength : ys.length ≤ xs.length)
    (htotal : ∀ x ∈ xs, ∃ y ∈ ys, R x y) (hown : xs.Pairwise fun x x' => ∀ y ∈ ys, R x y → ¬ R x' y) :
    ∃ zs, zs.Perm ys ∧ List.Forall₂ R xs zs := by
  induction xs generalizing ys with
  | nil =>
      rw [List.length_eq_zero_iff.mp (Nat.le_zero.mp hlength)]
      exact ⟨[], .refl [], .nil⟩
  | cons x xs ih =>
      obtain ⟨hx, hown⟩ := List.pairwise_cons.mp hown
      obtain ⟨y, hy, hxy⟩ := htotal x List.mem_cons_self
      obtain ⟨before, after, rfl⟩ := List.append_of_mem hy
      have hsub : ∀ z ∈ before ++ after, z ∈ before ++ y :: after := fun z hz =>
        List.mem_append.mpr ((List.mem_append.mp hz).imp_right (List.mem_cons_of_mem _))
      have hrest : ∃ zs, zs.Perm (before ++ after) ∧ List.Forall₂ R xs zs := by
        refine ih ?_ (fun x' hx' => ?_) (hown.imp fun h z hz => h z (hsub z hz))
        · rw [List.length_append, List.length_cons, List.length_cons] at hlength
          rw [List.length_append]
          omega
        · obtain ⟨z, hz, hxz⟩ := htotal x' (List.mem_cons_of_mem _ hx')
          refine ⟨z, ?_, hxz⟩
          rw [List.mem_append, List.mem_cons] at hz
          rcases hz with hz | rfl | hz
          · exact List.mem_append_left _ hz
          · exact absurd hxz (hx x' hx' z hy hxy)
          · exact List.mem_append_right _ hz
      obtain ⟨zs, hperm, hzs⟩ := hrest
      exact ⟨y :: zs, (hperm.cons y).trans List.perm_middle.symm, .cons hxy hzs⟩

/-- Where each of a row has its own partner in another row that is no longer, each of the other row has one. -/
theorem exists_left_of_length_le {R : α → β → Prop} {xs : List α} {ys : List β} (hlength : ys.length ≤ xs.length)
    (htotal : ∀ x ∈ xs, ∃ y ∈ ys, R x y) (hown : xs.Pairwise fun x x' => ∀ y ∈ ys, R x y → ¬ R x' y) :
    ∀ y ∈ ys, ∃ x ∈ xs, R x y := by
  intro y hy
  obtain ⟨zs, hperm, hzs⟩ := exists_perm_of_length_le hlength htotal hown
  exact exists_left_of_forall₂ hzs (hperm.mem_iff.mpr hy)

/-! ### Rows of named things -/

/-- What is put to the end is found unless there was something of its name. -/
theorem lookup_concat [BEq α] [LawfulBEq α] [DecidableEq α] (xs : List (α × β)) (key k : α) (b : β) :
    (xs ++ [(k, b)]).lookup key = (xs.lookup key).or (if key = k then some b else none) := by
  rw [List.lookup_append, List.lookup_cons]
  by_cases h : key = k
  · rw [if_pos h, h, beq_self_eq_true]
  · rw [if_neg h, beq_false_of_ne h, List.lookup_nil]

theorem mem_of_lookup [BEq α] [LawfulBEq α] {xs : List (α × β)} {key : α} {b : β} (h : xs.lookup key = some b) :
    (key, b) ∈ xs := by
  obtain ⟨before, after, rfl, -⟩ := List.lookup_eq_some_iff.mp h
  exact List.mem_append_right _ List.mem_cons_self

/-- A name stands for something if an entry has it. -/
theorem any_key_eq (entries : List (String × β)) (key : String) :
    (entries.any fun e => e.1 == key) = (entries.lookup key).isSome := by
  induction entries with
  | nil => rfl
  | cons e entries ih =>
      obtain ⟨k, b⟩ := e
      rw [List.any_cons, List.lookup_cons, ih]
      by_cases hkey : key = k
      · rw [hkey, beq_self_eq_true]
        rfl
      · rw [beq_false_of_ne hkey, beq_false_of_ne (Ne.symm hkey), Bool.false_or]

theorem lookup_filter_key (entries : List (String × β)) (p : String → Bool) (key : String) :
    (entries.filter fun e => p e.1).lookup key = if p key then entries.lookup key else none := by
  induction entries with
  | nil => simp
  | cons e entries ih =>
      obtain ⟨k, b⟩ := e
      rw [List.filter_cons, List.lookup_cons]
      by_cases hkey : key = k
      · subst hkey
        cases hp : p key with
        | true => simp
        | false => simp [hp, ih]
      · rw [beq_false_of_ne hkey]
        cases hp : p k with
        | true => simpa [List.lookup_cons, beq_false_of_ne hkey] using ih
        | false => simpa using ih

/-! ### Removing repetitions -/

/-- A further member goes to the end, unless it is there. -/
theorem eraseDups_concat [BEq α] [LawfulBEq α] (xs : List α) (x : α) [Decidable (x ∈ xs)] :
    (xs ++ [x]).eraseDups = if x ∈ xs then xs.eraseDups else xs.eraseDups ++ [x] := by
  rw [List.eraseDups_append]
  split
  · rename_i h
    simp [List.removeAll, h]
  · rename_i h
    simp [List.removeAll, h, List.eraseDups_cons]

theorem nodup_eraseDups [BEq α] [LawfulBEq α] (xs : List α) : xs.eraseDups.Nodup := by
  classical
  induction xs using List.reverseRecOn with
  | nil => exact List.nodup_nil
  | append_singleton xs x ih =>
      rw [eraseDups_concat]
      split_ifs with hx
      · exact ih
      · refine List.nodup_append.mpr ⟨ih, List.pairwise_singleton _ x, fun y hy z hz heq => hx ?_⟩
        rwa [← List.mem_singleton.mp hz, ← heq, ← List.mem_eraseDups]

theorem length_eraseDups_le [BEq α] (xs : List α) : xs.eraseDups.length ≤ xs.length := by
  induction h : xs.length using Nat.strongRecOn generalizing xs with
  | ind n ih =>
    cases xs with
    | nil => simp
    | cons x xs =>
        rw [List.eraseDups_cons]
        rw [List.length_cons] at h
        have hfilter := List.length_filter_le (fun y => !y == x) xs
        have hrest := ih (xs.filter fun y => !y == x).length (by omega) _ rfl
        rw [List.length_cons]
        omega

/-- Removing repetitions shortens every list that has some. -/
theorem length_eraseDups_eq_iff [BEq α] [LawfulBEq α] (xs : List α) :
    xs.eraseDups.length = xs.length ↔ xs.Nodup := by
  induction xs with
  | nil => simp
  | cons x xs ih =>
      rw [List.eraseDups_cons, List.nodup_cons]
      by_cases hx : x ∈ xs
      · have hle := length_eraseDups_le (xs.filter fun y => !y == x)
        have hlt : (xs.filter fun y => !y == x).length < xs.length :=
          List.length_filter_lt_length_iff_exists.mpr ⟨x, hx, by simp⟩
        simp only [List.length_cons, hx, not_true_eq_false, false_and, iff_false]
        omega
      · have hf : (xs.filter fun y => !y == x) = xs := by
          rw [List.filter_eq_self]
          intro y hy
          have : y ≠ x := fun h => hx (h ▸ hy)
          simpa using this
        simp [hf, hx, ih]

end ApiContract
