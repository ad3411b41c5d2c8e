import ApiContract.Proofs.Induction
import ApiContract.Proofs.ListLemmas
import Mathlib.Tactic.Ring

/-!
# Equality of values

Equality of values, under which `1`, `1.0` and `true` are one value, is transitive (`Value.same_trans`). Numbers
are equal if they are the same quotient or the same infinity, so it comes down to cross products.
-/

namespace ApiContract.Value

namespace Number

/-- A number as a quotient, if it is finite. -/
def ratio? : Number → Option (Int × Nat)
  | .int n => some (n, 1)
  | .float x => x.ratio?

theorem ratio?_finite (negative : Bool) (m : Nat) (e : Int) :
    (Number.float (.finite negative m e)).ratio? =
      some (if negative then -((Binary64.scaled m e).1 : Int) else (Binary64.scaled m e).1,
        (Binary64.scaled m e).2) := rfl

theorem compare?_finite (negative negative' : Bool) (m m' : Nat) (e e' : Int) :
    (Number.float (.finite negative m e)).compare? (.float (.finite negative' m' e')) =
      some (compare
        ((if negative then -((Binary64.scaled m e).1 : Int) else (Binary64.scaled m e).1) *
          (Binary64.scaled m' e').2)
        ((if negative' then -((Binary64.scaled m' e').1 : Int) else (Binary64.scaled m' e').1) *
          (Binary64.scaled m e).2)) := rfl

theorem ratio?_snd_pos {a : Number} {p : Int} {q : Nat} (h : a.ratio? = some (p, q)) : 0 < q := by
  cases a with
  | int n =>
      cases h
      exact Nat.one_pos
  | float x =>
      cases x with
      | nan => cases h
      | infinite negative => cases h
      | finite negative m e =>
          rw [ratio?_finite, Option.some.injEq, Prod.mk.injEq] at h
          rw [← h.2]
          exact Binary64.scaled_snd_pos m e

/-- Finite numbers are compared by their cross products. -/
theorem compare?_of_ratio? {a b : Number} {p r : Int} {q s : Nat} (ha : a.ratio? = some (p, q))
    (hb : b.ratio? = some (r, s)) : a.compare? b = some .eq ↔ p * s = r * q := by
  cases a with
  | int n =>
      cases ha
      cases b with
      | int m =>
          cases hb
          simp [compare?]
      | float y =>
          cases y with
          | nan => cases hb
          | infinite negative => cases hb
          | finite negative m e =>
              rw [ratio?_finite, Option.some.injEq, Prod.mk.injEq] at hb
              rw [compare?, Binary64.compareInt_finite, Option.map_some, Option.some.injEq,
                Ordering.swap_eq_eq, Int.compare_eq_eq, hb.1, hb.2, Int.natCast_one, Int.mul_one]
              exact eq_comm
  | float x =>
      cases x with
      | nan => cases ha
      | infinite negative => cases ha
      | finite negative m e =>
          rw [ratio?_finite, Option.some.injEq, Prod.mk.injEq] at ha
          cases b with
          | int n =>
              cases hb
              rw [compare?, Binary64.compareInt_finite, Option.some.injEq, Int.compare_eq_eq, ha.1, ha.2,
                Int.natCast_one, Int.mul_one]
          | float y =>
              cases y with
              | nan => cases hb
              | infinite negative => cases hb
              | finite negative' m' e' =>
                  rw [ratio?_finite, Option.some.injEq, Prod.mk.injEq] at hb
                  rw [compare?_finite, Option.some.injEq, Int.compare_eq_eq, ha.1, ha.2, hb.1, hb.2]

/-- An infinity is equal to itself alone. -/
theorem compare?_infinite {negative : Bool} {b : Number} :
    (Number.float (.infinite negative)).compare? b = some .eq ↔ b = .float (.infinite negative) := by
  cases b with
  | int n => cases negative <;> simp [compare?, Binary64.compareInt]
  | float y => cases y <;> cases negative <;> simp [compare?, Binary64.compare?]

/-- A finite number is equal to finite ones only. -/
theorem exists_ratio?_of_compare? {a b : Number} {p : Int} {q : Nat} (ha : a.ratio? = some (p, q))
    (h : a.compare? b = some .eq) : ∃ r s, b.ratio? = some (r, s) := by
  cases b with
  | int n => exact ⟨n, 1, rfl⟩
  | float y =>
      cases y with
      | finite negative m e => exact ⟨_, _, rfl⟩
      | nan =>
          cases a with
          | int n => cases h
          | float x => cases x <;> cases h
      | infinite negative =>
          cases a with
          | int n => cases negative <;> cases h
          | float x =>
              cases x with
              | nan => cases ha
              | infinite negative' => cases ha
              | finite negative' m e => cases negative <;> cases h

/-- Numbers are equal if they are one infinity or quotients with equal cross products. -/
theorem same_iff {a b : Number} :
    a.same b = true ↔
      (∃ negative, a = .float (.infinite negative) ∧ b = .float (.infinite negative)) ∨
        ∃ p q r s, a.ratio? = some (p, q) ∧ b.ratio? = some (r, s) ∧ p * s = r * q := by
  rw [same, beq_iff_eq]
  constructor
  · intro h
    cases ha : a.ratio? with
    | some pq =>
        obtain ⟨r, s, hb⟩ := exists_ratio?_of_compare? ha h
        exact .inr ⟨_, _, _, _, rfl, hb, (compare?_of_ratio? ha hb).mp h⟩
    | none =>
        cases a with
        | int n => cases ha
        | float x =>
            cases x with
            | nan => cases b <;> cases h
            | infinite negative => exact .inl ⟨negative, rfl, compare?_infinite.mp h⟩
            | finite negative m e => cases ha
  · rintro (⟨negative, rfl, rfl⟩ | ⟨p, q, r, s, ha, hb, hcross⟩)
    · exact compare?_infinite.mpr rfl
    · exact (compare?_of_ratio? ha hb).mpr hcross

theorem same_trans {a b c : Number} (h : a.same b = true) (h' : b.same c = true) : a.same c = true := by
  rw [same_iff] at h h' ⊢
  rcases h with ⟨negative, rfl, rfl⟩ | ⟨p, q, r, s, ha, hb, hcross⟩
  · rcases h' with ⟨negative', hb, rfl⟩ | ⟨_, _, _, _, hb, -, -⟩
    · exact .inl ⟨negative', hb, rfl⟩
    · cases hb
  · rcases h' with ⟨negative, rfl, -⟩ | ⟨r', s', t, u, hb', hc, hcross'⟩
    · cases hb
    · obtain ⟨rfl, rfl⟩ := Prod.mk.inj (Option.some.inj (hb.symm.trans hb'))
      refine .inr ⟨p, q, t, u, ha, hc, ?_⟩
      have hs : (s : Int) ≠ 0 := by exact_mod_cast (ratio?_snd_pos hb).ne'
      refine Int.eq_of_mul_eq_mul_right hs ?_
      calc p * u * s = p * s * u := by ring
        _ = r * u * q := by rw [hcross]; ring
        _ = t * q * s := by rw [hcross']; ring

theorem same_symm {a b : Number} (h : a.same b = true) : b.same a = true := by
  rw [same_iff] at h ⊢
  rcases h with ⟨negative, rfl, rfl⟩ | ⟨p, q, r, s, ha, hb, hcross⟩
  · exact .inl ⟨negative, rfl, rfl⟩
  · exact .inr ⟨r, s, p, q, hb, ha, hcross.symm⟩

end Number

/-! ### Values -/

/-- A value that counts as a number is equal to those that count as an equal one. -/
theorem same_of_number? {v w : Value} {a : Number} (h : v.number? = some a) :
    v.same w = true ↔ ∃ b, w.number? = some b ∧ a.same b = true := by
  have hnumber : v.same w = (w.number?.map (Number.same a)).getD false := by
    cases v with
    | bool b =>
        cases h
        rfl
    | int n =>
        cases h
        rfl
    | float x =>
        cases h
        rfl
    | _ => cases h
  rw [hnumber]
  cases w.number? <;> simp

theorem sameItems_iff {xs ys : List Value} :
    sameItems xs ys = true ↔ List.Forall₂ (fun x y => x.same y = true) xs ys := by
  induction xs generalizing ys with
  | nil => cases ys <;> simp [sameItems]
  | cons x xs ih => cases ys <;> simp [sameItems, ih]

theorem sameEntries_iff {es fs : List (Value × Value)} :
    sameEntries es fs = true ↔ ∀ e ∈ es, ∃ f ∈ fs, e.1.same f.1 = true ∧ e.2.same f.2 = true := by
  induction es with
  | nil => simp [sameEntries]
  | cons e es ih =>
      obtain ⟨key, v⟩ := e
      simp [sameEntries, ih]

theorem sameMembers_iff {xs ys : List Value} :
    sameMembers xs ys = true ↔ ∀ x ∈ xs, ∃ y ∈ ys, x.same y = true := by
  induction xs with
  | nil => simp [sameMembers]
  | cons x xs ih => simp [sameMembers, ih]

theorem same_list {xs : List Value} {v : Value} :
    (Value.list xs).same v = true ↔ ∃ ys, v = .list ys ∧ List.Forall₂ (fun x y => x.same y = true) xs ys := by
  cases v with
  | list ys => simp [same, sameItems_iff]
  | _ => exact iff_of_false Bool.false_ne_true (by rintro ⟨_, h, -⟩; cases h)

theorem same_tuple {xs : List Value} {v : Value} :
    (Value.tuple xs).same v = true ↔
      ∃ ys, v = .tuple ys ∧ List.Forall₂ (fun x y => x.same y = true) xs ys := by
  cases v with
  | tuple ys => simp [same, sameItems_iff]
  | _ => exact iff_of_false Bool.false_ne_true (by rintro ⟨_, h, -⟩; cases h)

theorem same_dict {es : List (Value × Value)} {v : Value} :
    (Value.dict es).same v = true ↔
      ∃ fs, v = .dict fs ∧ es.length = fs.length ∧
        ∀ e ∈ es, ∃ f ∈ fs, e.1.same f.1 = true ∧ e.2.same f.2 = true := by
  cases v with
  | dict fs => simp [same, sameEntries_iff]
  | _ => exact iff_of_false Bool.false_ne_true (by rintro ⟨_, h, -⟩; cases h)

theorem same_set {xs : List Value} {v : Value} :
    (Value.set xs).same v = true ↔
      ∃ ys, v = .set ys ∧ xs.length = ys.length ∧ ∀ x ∈ xs, ∃ y ∈ ys, x.same y = true := by
  cases v with
  | set ys => simp [same, sameMembers_iff]
  | _ => exact iff_of_false Bool.false_ne_true (by rintro ⟨_, h, -⟩; cases h)

/-- Items that are equal place by place to items that are equal place by place to others. -/
theorem forall₂_same_trans {xs ys zs : List Value}
    (ih : ∀ x ∈ xs, ∀ y z, x.same y = true → y.same z = true → x.same z = true)
    (h : List.Forall₂ (fun x y => x.same y = true) xs ys) (h' : List.Forall₂ (fun y z => y.same z = true) ys zs) :
    List.Forall₂ (fun x z => x.same z = true) xs zs := by
  induction h generalizing zs with
  | nil =>
      cases h'
      exact .nil
  | @cons x y xs ys hxy _ ihxs =>
      cases h' with
      | cons hyz hrest =>
          exact .cons (ih x List.mem_cons_self y _ hxy hyz)
            (ihxs (fun x hx => ih x (List.mem_cons_of_mem _ hx)) hrest)

theorem same_trans_of_number? {u v w : Value} {a : Number} (hu : u.number? = some a) (h : u.same v = true)
    (h' : v.same w = true) : u.same w = true := by
  obtain ⟨b, hv, hab⟩ := (same_of_number? hu).mp h
  obtain ⟨c, hw, hbc⟩ := (same_of_number? hv).mp h'
  exact (same_of_number? hu).mpr ⟨c, hw, Number.same_trans hab hbc⟩

/-- Equality of values is transitive. -/
theorem same_trans {u v w : Value} (h : u.same v = true) (h' : v.same w = true) : u.same w = true := by
  induction u using Value.induction generalizing v w with
  | bool b => exact same_trans_of_number? rfl h h'
  | int n => exact same_trans_of_number? rfl h h'
  | float x => exact same_trans_of_number? rfl h h'
  | list xs ih =>
      obtain ⟨ys, rfl, hys⟩ := same_list.mp h
      obtain ⟨zs, rfl, hzs⟩ := same_list.mp h'
      exact same_list.mpr ⟨zs, rfl, forall₂_same_trans (fun x hx _ _ => ih x hx) hys hzs⟩
  | tuple xs ih =>
      obtain ⟨ys, rfl, hys⟩ := same_tuple.mp h
      obtain ⟨zs, rfl, hzs⟩ := same_tuple.mp h'
      exact same_tuple.mpr ⟨zs, rfl, forall₂_same_trans (fun x hx _ _ => ih x hx) hys hzs⟩
  | dict entries ih =>
      obtain ⟨fs, rfl, hlength, hfs⟩ := same_dict.mp h
      obtain ⟨gs, rfl, hlength', hgs⟩ := same_dict.mp h'
      refine same_dict.mpr ⟨gs, rfl, hlength.trans hlength', fun e he => ?_⟩
      obtain ⟨f, hf, hkey, hvalue⟩ := hfs e he
      obtain ⟨g, hg, hkey', hvalue'⟩ := hgs f hf
      exact ⟨g, hg, (ih e he).1 hkey hkey', (ih e he).2 hvalue hvalue'⟩
  | set xs ih =>
      obtain ⟨ys, rfl, hlength, hys⟩ := same_set.mp h
      obtain ⟨zs, rfl, hlength', hzs⟩ := same_set.mp h'
      refine same_set.mpr ⟨zs, rfl, hlength.trans hlength', fun x hx => ?_⟩
      obtain ⟨y, hy, hxy⟩ := hys x hx
      obtain ⟨z, hz, hyz⟩ := hzs y hy
      exact ⟨z, hz, ih x hx hxy hyz⟩
  | dateTime t =>
      cases v with
      | dateTime t' =>
          cases w with
          | dateTime t'' =>
              simp only [same, sameTime, Bool.and_eq_true, beq_iff_eq] at h h' ⊢
              exact ⟨h.1.trans h'.1, h.2.trans h'.2⟩
          | _ => cases h'
      | _ => cases h
  | null =>
      cases v with
      | null => exact h'
      | _ => cases h
  | absent =>
      cases v with
      | absent => exact h'
      | _ => cases h
  | str s =>
      cases v with
      | str s' =>
          rw [beq_iff_eq.mp h]
          exact h'
      | _ => cases h
  | bytes bs =>
      cases v with
      | bytes bs' =>
          rw [beq_iff_eq.mp h]
          exact h'
      | _ => cases h
  | date d =>
      cases v with
      | date d' =>
          rw [beq_iff_eq.mp h]
          exact h'
      | _ => cases h
  | uuid text =>
      cases v with
      | uuid text' =>
          rw [beq_iff_eq.mp h]
          exact h'
      | _ => cases h

end ApiContract.Value
