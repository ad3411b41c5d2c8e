import ApiContract.Proofs.Rounding
import Mathlib.Order.Compare

/-!
# Arithmetic of rounded numbers

What the operations on doubles come to in exact values: comparison is that of the values (`compare?_eq_eq_iff`,
`atMost_iff`), a sum and a product are the exact ones rounded (`rounds_add`, `rounds_mul`), and the remainder of
two naturals is exact (`abs_remainder`).
-/

namespace ApiContract.Binary64

variable {x y : Binary64}

theorem exists_of_isFinite (h : x.isFinite = true) : ∃ negative m e, x = .finite negative m e := by
  cases x with
  | nan => cases h
  | infinite => cases h
  | finite negative m e => exact ⟨negative, m, e, rfl⟩

/-- The value as a quotient. -/
theorem ratio?_eq (h : x.isFinite = true) :
    ∃ p : ℤ, ∃ q : ℕ, x.ratio? = some (p, q) ∧ 0 < q ∧ value x = p / q := by
  obtain ⟨negative, m, e, rfl⟩ := exists_of_isFinite h
  refine ⟨_, _, rfl, scaled_snd_pos m e, ?_⟩
  cases negative with
  | false => exact (scaled_eq m e).symm
  | true =>
      show -((m : ℚ) * 2 ^ e) = ((-((scaled m e).1 : ℤ) : ℤ) : ℚ) / (scaled m e).2
      rw [Int.cast_neg, neg_div, ← scaled_eq]
      rfl

@[simp]
theorem value_neg : value x.neg = -value x := by
  cases x with
  | nan => exact neg_zero.symm
  | infinite => exact neg_zero.symm
  | finite negative m e =>
      cases negative with
      | false => rfl
      | true => exact (neg_neg _).symm

@[simp]
theorem value_abs : value x.abs = |value x| := by
  cases x with
  | nan => exact abs_zero.symm
  | infinite => exact abs_zero.symm
  | finite negative m e => exact (abs_value_finite negative m e).symm

@[simp]
theorem isFinite_neg : x.neg.isFinite = x.isFinite := by
  cases x <;> rfl

@[simp]
theorem isFinite_abs : x.abs.isFinite = x.isFinite := by
  cases x <;> rfl

theorem isDouble_abs (h : x.IsDouble) : x.abs.IsDouble := by
  cases x with
  | nan => trivial
  | infinite => trivial
  | finite => exact h

/-! ### Order -/

theorem compare?_eq (hx : x.isFinite = true) (hy : y.isFinite = true) :
    x.compare? y = some (compare (value x) (value y)) := by
  obtain ⟨p, q, hp, hq, hvx⟩ := ratio?_eq hx
  obtain ⟨r, s, hr, hs, hvy⟩ := ratio?_eq hy
  have hcompare : x.compare? y = some (compare (p * s) (r * q)) := by
    obtain ⟨_, _, _, rfl⟩ := exists_of_isFinite hx
    obtain ⟨_, _, _, rfl⟩ := exists_of_isFinite hy
    unfold compare?
    dsimp only
    rw [hp, hr]
  have hlt : p * s < r * q ↔ value x < value y := by
    rw [hvx, hvy, div_lt_div_iff₀ (by exact_mod_cast hq) (by exact_mod_cast hs)]
    exact_mod_cast Iff.rfl
  have heq : p * s = r * q ↔ value x = value y := by
    rw [hvx, hvy, div_eq_div_iff (by exact_mod_cast hq.ne') (by exact_mod_cast hs.ne')]
    exact_mod_cast Iff.rfl
  rw [hcompare, Option.some_inj]
  rcases lt_trichotomy (value x) (value y) with h | h | h
  · rw [compare_lt_iff_lt.mpr h, compare_lt_iff_lt]
    exact hlt.mpr h
  · rw [compare_eq_iff_eq.mpr h, compare_eq_iff_eq]
    exact heq.mpr h
  · rw [compare_gt_iff_gt.mpr h, compare_gt_iff_gt]
    apply lt_of_le_of_ne
    · exact not_lt.mp (mt hlt.mp h.not_gt)
    · exact mt (fun hcross => heq.mp hcross.symm) h.ne'

theorem compare?_eq_eq_iff (hx : x.isFinite = true) (hy : y.isFinite = true) :
    x.compare? y = some .eq ↔ value x = value y := by
  rw [compare?_eq hx hy, Option.some_inj, compare_eq_iff_eq]

theorem atMost_iff (hx : x.isFinite = true) (hy : y.isFinite = true) :
    Value.Number.atMost x y = true ↔ value x ≤ value y := by
  unfold Value.Number.atMost
  rw [compare?_eq hx hy]
  rcases lt_trichotomy (value x) (value y) with h | h | h
  · simp [compare_lt_iff_lt.mpr h, h.le]
  · simp [compare_eq_iff_eq.mpr h, h.le]
  · simp [compare_gt_iff_gt.mpr h, h]

/-! ### Sums and products -/

theorem abs_div_natCast (n : ℤ) (d : ℕ) : |(n : ℚ) / d| = (n.natAbs : ℚ) / d := by
  rw [abs_div, Nat.abs_cast, Nat.cast_natAbs, Int.cast_abs]

/-- A sum is the exact one, rounded. -/
theorem rounds_add (hx : x.isFinite = true) (hy : y.isFinite = true) (h : |value x + value y| ≤ largest) :
    Rounds |value x + value y| (x.add y) := by
  obtain ⟨p, q, hp, hq, hvx⟩ := ratio?_eq hx
  obtain ⟨r, s, hr, hs, hvy⟩ := ratio?_eq hy
  obtain ⟨a, m, e, rfl⟩ := exists_of_isFinite hx
  obtain ⟨b, n, f, rfl⟩ := exists_of_isFinite hy
  have hsum : |value (.finite a m e) + value (.finite b n f)| =
      ((p * s + r * q).natAbs : ℚ) / (q * s : ℕ) := by
    have hq' : (q : ℚ) ≠ 0 := by exact_mod_cast hq.ne'
    have hs' : (s : ℚ) ≠ 0 := by exact_mod_cast hs.ne'
    rw [← abs_div_natCast, hvx, hvy, div_add_div _ _ hq' hs']
    push_cast
    ring_nf
  unfold add
  dsimp only
  split_ifs with hzero
  · -- two zeros are a case of their own, for the sign
    obtain ⟨rfl, rfl⟩ := hzero
    have hvalue : value (.finite a 0 e) + value (.finite b 0 f) = 0 := by
      cases a <;> cases b <;> simp [value]
    rw [hvalue, abs_zero]
    have hbound : ((0 : ℕ) : ℚ) / (1 : ℕ) ≤ largest := by simpa using fits_largest.nonneg
    simpa [ofRatio] using rounds_ofRatio (a && b) one_ne_zero hbound
  · rw [hp, hr]
    show Rounds _ (ofSignedRatio (p * s + r * q) (q * s))
    rw [hsum] at h ⊢
    exact rounds_ofRatio _ (Nat.mul_pos hq hs).ne' h

/-- A product is the exact one, rounded. -/
theorem rounds_mul (hx : x.isFinite = true) (hy : y.isFinite = true) (h : |value x| * |value y| ≤ largest) :
    Rounds (|value x| * |value y|) (x.mul y) := by
  obtain ⟨a, m, e, rfl⟩ := exists_of_isFinite hx
  obtain ⟨b, n, f, rfl⟩ := exists_of_isFinite hy
  have hproduct : |value (.finite a m e)| * |value (.finite b n f)| =
      ((scaled (m * n) (e + f)).1 : ℚ) / (scaled (m * n) (e + f)).2 := by
    rw [abs_value_finite, abs_value_finite, scaled_eq, zpow_add₀ two_ne_zero, Nat.cast_mul]
    ring
  rw [hproduct] at h ⊢
  exact rounds_ofRatio _ (scaled_snd_pos _ _).ne' h

/-! ### Remainders -/

/-- The remainder at the place of the smaller exponent is the remainder of the naturals. -/
theorem mod_mul_zpow {A B M S : ℕ} {e : ℤ} (hA : (A : ℚ) * 2 ^ e = M) (hB : (B : ℚ) * 2 ^ e = S) :
    ((A % B : ℕ) : ℚ) * 2 ^ e = (M % S : ℕ) := by
  by_cases he : 0 ≤ e
  · obtain ⟨k, rfl⟩ := Int.eq_ofNat_of_zero_le he
    have hA' : A * 2 ^ k = M := by exact_mod_cast hA
    have hB' : B * 2 ^ k = S := by exact_mod_cast hB
    rw [← hA', ← hB', Nat.mul_mod_mul_right]
    push_cast
    rfl
  · obtain ⟨k, rfl⟩ : ∃ k : ℕ, e = -k := ⟨(-e).toNat, by omega⟩
    have hunscale {n m : ℕ} (h : (n : ℚ) * 2 ^ (-(k : ℤ)) = m) : n = m * 2 ^ k := by
      rw [zpow_neg, zpow_natCast, ← div_eq_mul_inv, div_eq_iff (by positivity)] at h
      exact_mod_cast h
    rw [hunscale hA, hunscale hB, Nat.mul_mod_mul_right, zpow_neg, zpow_natCast, ← div_eq_mul_inv,
      div_eq_iff (by positivity)]
    push_cast
    rfl

/-- With both mantissas brought to the smaller exponent, one of the two is unchanged, and the remainder does not
exceed it. -/
theorem mod_lt_of_aligned {m n : ℕ} {e f : ℤ} (hm : m < 2 ^ 53) (hn : n < 2 ^ 53) (hn0 : n ≠ 0) :
    m * Nat.pow 2 (e - min e f).toNat % (n * Nat.pow 2 (f - min e f).toNat) < 2 ^ 53 := by
  simp only [Nat.pow_eq]
  rcases min_choice e f with h | h
  · rw [h, sub_self, Int.toNat_zero, Nat.pow_zero, Nat.mul_one]
    exact Nat.lt_of_le_of_lt (Nat.mod_le _ _) hm
  · rw [h, sub_self, Int.toNat_zero, Nat.pow_zero, Nat.mul_one]
    exact Nat.lt_trans (Nat.mod_lt _ (Nat.pos_of_ne_zero hn0)) hn

theorem mul_zpow_le_largest {k : ℕ} {i : ℤ} (hk : k < 2 ^ 53) (hi : i ≤ maxExponent) :
    (k : ℚ) * 2 ^ i ≤ largest := by
  have hk' : (k : ℚ) ≤ (2 ^ 53 - 1 : ℕ) := by exact_mod_cast Nat.le_sub_one_of_lt hk
  have hi' : (2 : ℚ) ^ i ≤ 2 ^ maxExponent := zpow_le_zpow_right₀ (by norm_num) hi
  exact mul_le_mul hk' hi' (two_zpow_pos i).le (Nat.cast_nonneg _)

/-- A double fits, and it is not beyond the largest one. -/
theorem IsDouble.fits (h : x.IsDouble) (hx : x.isFinite = true) : Fits |value x| := by
  obtain ⟨a, m, e, rfl⟩ := exists_of_isFinite hx
  exact ⟨m, e, h.1, h.2.1, abs_value_finite a m e⟩

theorem IsDouble.le_largest (h : x.IsDouble) (hx : x.isFinite = true) : |value x| ≤ largest := by
  obtain ⟨a, m, e, rfl⟩ := exists_of_isFinite hx
  rw [abs_value_finite]
  exact mul_zpow_le_largest h.1 h.2.2

/-- The remainder of two doubles that are naturals is the remainder of the naturals. -/
theorem abs_remainder (hx : x.isFinite = true) (hy : y.isFinite = true) (hdx : x.IsDouble) (hdy : y.IsDouble)
    {M S : ℕ} (hM : |value x| = M) (hS : |value y| = S) (hpos : 0 < S) :
    (x.remainder y).isFinite = true ∧ (x.remainder y).IsDouble ∧ |value (x.remainder y)| = (M % S : ℕ) := by
  obtain ⟨a, m, e, rfl⟩ := exists_of_isFinite hx
  obtain ⟨b, n, f, rfl⟩ := exists_of_isFinite hy
  rw [abs_value_finite] at hM hS
  have hn : n ≠ 0 := by
    rintro rfl
    rw [Nat.cast_zero, zero_mul] at hS
    exact hpos.ne (by exact_mod_cast hS)
  obtain ⟨hm53, hemin, hemax⟩ := hdx
  obtain ⟨hn53, hfmin, hfmax⟩ := hdy
  generalize hlow : min e f = low
  generalize hr : m * Nat.pow 2 (e - low).toNat % (n * Nat.pow 2 (f - low).toNat) = r
  have hrem : remainder (.finite a m e) (.finite b n f) = ofRatio a (scaled r low).1 (scaled r low).2 := by
    unfold remainder
    dsimp only
    rw [if_neg hn, hlow, hr]
  -- shifting a mantissa to the lower place keeps the value
  have hplace {k : ℕ} {i : ℤ} (hi : low ≤ i) : ((k * Nat.pow 2 (i - low).toNat : ℕ) : ℚ) * 2 ^ low = k * 2 ^ i := by
    obtain ⟨j, rfl⟩ : ∃ j : ℕ, i = j + low := ⟨(i - low).toNat, by omega⟩
    have hj : ((j : ℤ) + low - low).toNat = j := by omega
    rw [hj, Nat.cast_mul, Nat.pow_eq, Nat.cast_pow, Nat.cast_ofNat, mul_assoc, two_pow_mul_zpow]
  have hvalue : (r : ℚ) * 2 ^ low = (M % S : ℕ) := by
    rw [← hr]
    apply mod_mul_zpow
    · rw [hplace (by omega), hM]
    · rw [hplace (by omega), hS]
  have hr53 : r < 2 ^ 53 := by
    rw [← hr, ← hlow]
    exact mod_lt_of_aligned hm53 hn53 hn
  -- so the remainder fits, and nothing is rounded
  have hfits : Fits ((r : ℚ) * 2 ^ low) := ⟨r, low, hr53, by omega, rfl⟩
  have hround : Rounds ((r : ℚ) * 2 ^ low) (ofRatio a (scaled r low).1 (scaled r low).2) := by
    rw [← scaled_eq]
    apply rounds_ofRatio _ (scaled_snd_pos _ _).ne'
    rw [scaled_eq]
    exact mul_zpow_le_largest hr53 (by omega)
  rw [hrem, ← hvalue]
  exact ⟨hround.isFinite, isDouble_ofRatio _ _ _, hround.value_eq hfits⟩

end ApiContract.Binary64
