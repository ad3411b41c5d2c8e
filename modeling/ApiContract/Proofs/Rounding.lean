import ApiContract.Proofs.Doubles
import Mathlib.Algebra.Order.Field.Basic
import Mathlib.Algebra.Order.Field.Power
import Mathlib.Data.Rat.Cast.Order
import Mathlib.Tactic.Linarith
import Mathlib.Tactic.Ring
import Mathlib.Tactic.FieldSimp
import Mathlib.Tactic.NormNum
import Mathlib.Tactic.Positivity

/-!
# Rounding to the nearest number

Numbers as exact rationals (`value`). A rational fits if it has at most 53 significant bits, none of them below
the least exponent (`Fits`), and `Nearest q v` says that no rational that fits is nearer to `q` than `v`. A
fraction up to the largest number is rounded to a finite number that is nearest in this sense, and off by one
part in `2 ^ 53` at most (`Rounds`, `rounds_ofRatio`).

From this the laws of rounding follow without another look at bits: a rational that fits is its own nearest
number (`Nearest.eq_of_fits`), and rounding keeps order (`Nearest.le_of_lt`).
-/

namespace ApiContract.Binary64

/-- The exact value of a finite number; the others count as zero. -/
def value : Binary64 → ℚ
  | .finite negative m e => if negative then -((m : ℚ) * 2 ^ e) else (m : ℚ) * 2 ^ e
  | _ => 0

/-- A rational of at most 53 significant bits, none of them below the least exponent. -/
def Fits (q : ℚ) : Prop :=
  ∃ m : ℕ, ∃ e : ℤ, m < 2 ^ 53 ∧ minExponent ≤ e ∧ q = m * 2 ^ e

/-- No rational that fits is nearer to the first one than the second. -/
def Nearest (q v : ℚ) : Prop :=
  Fits v ∧ ∀ w, Fits w → |v - q| ≤ |w - q|

section Nearest

variable {q q' v v' : ℚ}

theorem Fits.nonneg (h : Fits q) : 0 ≤ q := by
  obtain ⟨m, e, -, -, rfl⟩ := h
  positivity

theorem Nearest.eq_of_fits (h : Nearest q v) (hq : Fits q) : v = q := by
  have hle := h.2 q hq
  rw [sub_self, abs_zero] at hle
  have hzero : v - q = 0 := abs_eq_zero.mp (le_antisymm hle (abs_nonneg _))
  linarith

/-- Rounding keeps order: otherwise the two results would stand crosswise, and one of them would be nearer to
the other rational than the result for it. -/
theorem Nearest.le_of_lt (h : Nearest q v) (h' : Nearest q' v') (hlt : q < q') : v ≤ v' := by
  by_contra hcross
  push Not at hcross
  have hleft := h.2 v' h'.1
  have hright := h'.2 v h.1
  rcases abs_cases (v - q) with h1 | h1 <;> rcases abs_cases (v' - q) with h2 | h2 <;>
    rcases abs_cases (v - q') with h3 | h3 <;> rcases abs_cases (v' - q') with h4 | h4 <;> linarith

end Nearest

/-! ### Scaling -/

theorem two_zpow_pos (e : ℤ) : (0 : ℚ) < 2 ^ e := by positivity

theorem scaled_eq (n : ℕ) (e : ℤ) : ((scaled n e).1 : ℚ) / (scaled n e).2 = n * 2 ^ e := by
  unfold scaled
  split_ifs with he
  · obtain ⟨k, rfl⟩ := Int.eq_ofNat_of_zero_le he
    simp
  · obtain ⟨k, rfl⟩ : ∃ k : ℕ, e = -k := ⟨(-e).toNat, by omega⟩
    simp [div_eq_mul_inv]

theorem scaled_div_eq (num den : ℕ) (e : ℤ) :
    ((scaled num (-e)).1 : ℚ) / ((scaled num (-e)).2 * den : ℕ) = num / den / 2 ^ e := by
  rw [Nat.cast_mul, ← div_div, scaled_eq, zpow_neg]
  ring

theorem two_pow_mul_zpow (k : ℕ) (e : ℤ) : (2 : ℚ) ^ k * 2 ^ e = 2 ^ (k + e) := by
  rw [zpow_add₀ two_ne_zero, zpow_natCast]

/-- A carry: a mantissa of `2 ^ 53` is one of `2 ^ 52` at the next exponent. -/
theorem carry_eq (e : ℤ) : ((2 ^ 52 : ℕ) : ℚ) * 2 ^ (e + 1) = ((2 ^ 53 : ℕ) : ℚ) * 2 ^ e := by
  rw [Nat.cast_pow, Nat.cast_pow, Nat.cast_ofNat, two_pow_mul_zpow, two_pow_mul_zpow]
  congr 1
  omega

/-! ### The nearest integer -/

section Integers

variable {num den : ℕ}

theorem abs_roundHalfEven_sub_le (num : ℕ) (hden : 0 < den) :
    |(roundHalfEven num den : ℚ) - num / den| ≤ 1 / 2 := by
  have hd : (0 : ℚ) < den := by exact_mod_cast hden
  have hparts : (num : ℚ) = den * (num / den : ℕ) + (num % den : ℕ) := by
    exact_mod_cast (Nat.div_add_mod num den).symm
  have hmod : ((num % den : ℕ) : ℚ) < den := by exact_mod_cast Nat.mod_lt num hden
  -- the distance from a quotient plus `k` to the fraction is that of `k` to the remainder's share
  have hshare (k : ℚ) : ((num / den : ℕ) + k : ℚ) - num / den = k - (num % den : ℕ) / den := by
    have : (num : ℚ) / den = (num / den : ℕ) + ((num % den : ℕ) : ℚ) / den := by
      rw [div_eq_iff hd.ne', add_mul, div_mul_cancel₀ _ hd.ne']
      linarith
    rw [this]
    ring
  have hdown (h : 2 * (num % den) ≤ den) : |((num / den : ℕ) : ℚ) - num / den| ≤ 1 / 2 := by
    have h' : 2 * ((num % den : ℕ) : ℚ) ≤ den := by exact_mod_cast h
    have := hshare 0
    rw [add_zero] at this
    rw [this, zero_sub, abs_neg, abs_of_nonneg (by positivity), div_le_iff₀ hd]
    linarith
  have hup (h : den ≤ 2 * (num % den)) : |((num / den + 1 : ℕ) : ℚ) - num / den| ≤ 1 / 2 := by
    have h' : (den : ℚ) ≤ 2 * ((num % den : ℕ) : ℚ) := by exact_mod_cast h
    have hone : ((num % den : ℕ) : ℚ) / den ≤ 1 := by
      rw [div_le_one hd]
      exact hmod.le
    have hhalf : 1 / 2 ≤ ((num % den : ℕ) : ℚ) / den := by
      rw [le_div_iff₀ hd]
      linarith
    rw [Nat.cast_add, Nat.cast_one, hshare, abs_of_nonneg (by linarith)]
    linarith
  unfold roundHalfEven
  dsimp only
  split_ifs with h1 h2 h3
  · exact hup h1.le
  · exact hdown h2.le
  · exact hdown (by omega)
  · exact hup (by omega)

/-- A natural that is off by half at most is as near as every other natural. -/
theorem abs_sub_le_of_half {k l : ℕ} {x : ℚ} (h : |(k : ℚ) - x| ≤ 1 / 2) : |(k : ℚ) - x| ≤ |(l : ℚ) - x| := by
  rw [abs_le] at h
  rcases lt_trichotomy k l with hlt | rfl | hlt
  · have : (k : ℚ) + 1 ≤ l := by exact_mod_cast hlt
    exact le_abs.mpr (.inl (abs_le.mpr ⟨by linarith, by linarith⟩))
  · exact le_rfl
  · have : (l : ℚ) + 1 ≤ k := by exact_mod_cast hlt
    exact le_abs.mpr (.inr (abs_le.mpr ⟨by linarith, by linarith⟩))

end Integers

/-! ### The exponent -/

section Exponent

variable {num den : ℕ}

/-- The fraction lies below `2 ^ 53` places of the exponent that is chosen. -/
theorem div_lt_of_exponentFor (num : ℕ) (hden : den ≠ 0) : (num : ℚ) / den < 2 ^ 53 * 2 ^ exponentFor num den := by
  have hpos : 0 < (scaled num (-exponentFor num den)).2 * den :=
    Nat.mul_pos (scaled_snd_pos _ _) (Nat.pos_of_ne_zero hden)
  have hlt := @scaled_exponentFor_lt num den hden
  rw [← div_lt_iff₀ (two_zpow_pos _), ← scaled_div_eq, div_lt_iff₀ (by exact_mod_cast hpos)]
  exact_mod_cast hlt

/-- It reaches `2 ^ 52` places, unless the exponent is the least one. -/
theorem le_div_of_exponentFor (hnum : num ≠ 0) (hden : den ≠ 0)
    (he : exponentFor num den ≠ minExponent) : 2 ^ 52 * 2 ^ exponentFor num den ≤ (num : ℚ) / den := by
  have hd : (0 : ℚ) < den := by exact_mod_cast Nat.pos_of_ne_zero hden
  unfold exponentFor at he ⊢
  dsimp only at he ⊢
  generalize hlow : (num.log2 : ℤ) - den.log2 - 53 = low at he ⊢
  split_ifs at he ⊢ with htest
  · -- the lower candidate: the sizes of the two numbers decide
    rw [max_eq_left (by omega), ← hlow, two_pow_mul_zpow, le_div_iff₀ hd]
    have hnum' : (2 : ℚ) ^ num.log2 ≤ num := by exact_mod_cast Nat.log2_self_le hnum
    have hden' : (den : ℚ) ≤ 2 ^ (den.log2 + 1) := by exact_mod_cast (Nat.lt_log2_self (n := den)).le
    calc (2 : ℚ) ^ (((52 : ℕ) : ℤ) + ((num.log2 : ℤ) - den.log2 - 53)) * den
        ≤ 2 ^ (((52 : ℕ) : ℤ) + ((num.log2 : ℤ) - den.log2 - 53)) * 2 ^ (den.log2 + 1) :=
          mul_le_mul_of_nonneg_left hden' (two_zpow_pos _).le
      _ = 2 ^ num.log2 := by
          rw [mul_comm, two_pow_mul_zpow, ← zpow_natCast]
          congr 1
          omega
      _ ≤ num := hnum'
  · -- the higher one, taken because the quotient at the lower one is too large
    rw [max_eq_left (by omega)]
    have hpos : 0 < (scaled num (-low)).2 * den :=
      Nat.mul_pos (scaled_snd_pos _ _) (Nat.pos_of_ne_zero hden)
    rw [not_lt, Nat.le_div_iff_mul_le hpos] at htest
    have hle : (2 : ℚ) ^ 53 ≤ num / den / 2 ^ low := by
      rw [← scaled_div_eq, le_div_iff₀ (by exact_mod_cast hpos)]
      exact_mod_cast htest
    rw [le_div_iff₀ (two_zpow_pos _)] at hle
    calc (2 : ℚ) ^ 52 * 2 ^ (low + 1) = 2 ^ 53 * 2 ^ low := by
          exact_mod_cast carry_eq low
      _ ≤ (num : ℚ) / den := hle

end Exponent

/-! ### Rounding a fraction -/

section Rounded

variable {negative : Bool} {num den : ℕ}

/-- The mantissa at the exponent that is chosen. -/
def mantissaFor (num den : ℕ) : ℕ :=
  roundHalfEven (scaled num (-exponentFor num den)).1 ((scaled num (-exponentFor num den)).2 * den)

theorem abs_mantissaFor_sub_le (num : ℕ) (hden : den ≠ 0) :
    |(mantissaFor num den : ℚ) - num / den / 2 ^ exponentFor num den| ≤ 1 / 2 := by
  rw [← scaled_div_eq]
  exact abs_roundHalfEven_sub_le _ (Nat.mul_pos (scaled_snd_pos _ _) (Nat.pos_of_ne_zero hden))

theorem mantissaFor_le (hden : den ≠ 0) : mantissaFor num den ≤ 2 ^ 53 :=
  roundHalfEven_le (scaled_exponentFor_lt hden)

theorem le_mantissaFor (hnum : num ≠ 0) (hden : den ≠ 0) (he : exponentFor num den ≠ minExponent) :
    2 ^ 52 ≤ mantissaFor num den := by
  have hle := le_div_of_exponentFor hnum hden he
  rw [← le_div_iff₀ (two_zpow_pos _)] at hle
  have hhalf := abs_le.mp (abs_mantissaFor_sub_le num hden)
  have hlt : ((2 ^ 52 : ℕ) : ℚ) < (mantissaFor num den + 1 : ℕ) := by
    push_cast
    linarith
  exact Nat.lt_succ_iff.mp (by exact_mod_cast hlt)

theorem ofRatio_of_carry (hnum : num ≠ 0) (hden : den ≠ 0) (hcarry : mantissaFor num den = 2 ^ 53) :
    ofRatio negative num den = if maxExponent < exponentFor num den + 1 then .infinite negative
      else .finite negative (2 ^ 52) (exponentFor num den + 1) := by
  unfold ofRatio
  rw [if_neg (by simp [hnum, hden])]
  change roundHalfEven _ _ = Nat.pow 2 53 at hcarry
  dsimp only
  rw [if_pos hcarry]
  rfl

theorem ofRatio_of_not_carry (hnum : num ≠ 0) (hden : den ≠ 0) (hcarry : mantissaFor num den ≠ 2 ^ 53) :
    ofRatio negative num den = if maxExponent < exponentFor num den then .infinite negative
      else .finite negative (mantissaFor num den) (exponentFor num den) := by
  unfold ofRatio
  rw [if_neg (by simp [hnum, hden])]
  change roundHalfEven _ _ ≠ Nat.pow 2 53 at hcarry
  dsimp only
  rw [if_neg hcarry]
  rfl

/-- Rounding is finite and has the mantissa and the exponent that were chosen, perhaps with a carry; or it is
infinite, and what was chosen lies beyond the largest number. -/
theorem ofRatio_cases (negative : Bool) (hnum : num ≠ 0) (hden : den ≠ 0) :
    (∃ m e, ofRatio negative num den = .finite negative m e ∧
      (m : ℚ) * 2 ^ e = mantissaFor num den * 2 ^ exponentFor num den) ∨
    (ofRatio negative num den = .infinite negative ∧
      (2 : ℚ) ^ (1024 : ℤ) ≤ mantissaFor num den * 2 ^ exponentFor num den) := by
  have hbeyond {m : ℕ} (hm : 2 ^ 52 ≤ m) {e : ℤ} (he : maxExponent < e) :
      (2 : ℚ) ^ (1024 : ℤ) ≤ m * 2 ^ e := by
    have hm' : (2 : ℚ) ^ 52 ≤ m := by exact_mod_cast hm
    calc (2 : ℚ) ^ (1024 : ℤ) ≤ 2 ^ (((52 : ℕ) : ℤ) + e) :=
          zpow_le_zpow_right₀ (by norm_num) (by unfold maxExponent at he; omega)
      _ = 2 ^ 52 * 2 ^ e := (two_pow_mul_zpow 52 e).symm
      _ ≤ m * 2 ^ e := mul_le_mul_of_nonneg_right hm' (two_zpow_pos e).le
  by_cases hcarry : mantissaFor num den = 2 ^ 53
  · have hshift : ((2 ^ 52 : ℕ) : ℚ) * 2 ^ (exponentFor num den + 1) =
        mantissaFor num den * 2 ^ exponentFor num den := by
      rw [hcarry, carry_eq]
    rw [ofRatio_of_carry hnum hden hcarry]
    split_ifs with hmax
    · refine .inr ⟨rfl, ?_⟩
      rw [← hshift]
      exact hbeyond le_rfl hmax
    · exact .inl ⟨_, _, rfl, hshift⟩
  · rw [ofRatio_of_not_carry hnum hden hcarry]
    split_ifs with hmax
    · refine .inr ⟨rfl, hbeyond (le_mantissaFor hnum hden ?_) hmax⟩
      intro hleast
      rw [hleast] at hmax
      exact absurd hmax (by decide)
    · exact .inl ⟨_, _, rfl, rfl⟩

/-- What is chosen is nearest: on the grid of the exponent no point is nearer, and a rational that fits but is
not on the grid has a smaller exponent, so it lies below the first point with 53 bits. -/
theorem nearest_mantissaFor (hnum : num ≠ 0) (hden : den ≠ 0) :
    Nearest (num / den) (mantissaFor num den * 2 ^ exponentFor num den) := by
  have hu := two_zpow_pos (exponentFor num den)
  -- distances from the fraction are distances from its scaled form, times the place of the exponent
  have hscale (x : ℚ) : |x * 2 ^ exponentFor num den - num / den| =
      |x - num / den / 2 ^ exponentFor num den| * 2 ^ exponentFor num den := by
    rw [← abs_of_pos hu, ← abs_mul, abs_of_pos hu, sub_mul, div_mul_cancel₀ _ hu.ne']
  have hgrid (l : ℕ) : |(mantissaFor num den : ℚ) * 2 ^ exponentFor num den - num / den| ≤
      |(l : ℚ) * 2 ^ exponentFor num den - num / den| := by
    rw [hscale, hscale]
    exact mul_le_mul_of_nonneg_right (abs_sub_le_of_half (abs_mantissaFor_sub_le num hden)) hu.le
  have hleast := minExponent_le_exponentFor num den
  constructor
  · by_cases hcarry : mantissaFor num den = 2 ^ 53
    · refine ⟨2 ^ 52, exponentFor num den + 1, by norm_num, by omega, ?_⟩
      rw [hcarry, carry_eq]
    · exact ⟨_, _, Nat.lt_of_le_of_ne (mantissaFor_le hden) hcarry, hleast, rfl⟩
  · rintro w ⟨j, i, hj, hi, rfl⟩
    by_cases hie : exponentFor num den ≤ i
    · -- on the grid: the candidate is a multiple of the place
      obtain ⟨k, rfl⟩ : ∃ k : ℕ, i = k + exponentFor num den := ⟨(i - exponentFor num den).toNat, by omega⟩
      have := hgrid (j * 2 ^ k)
      rwa [Nat.cast_mul, Nat.cast_pow, Nat.cast_ofNat, mul_assoc, two_pow_mul_zpow] at this
    · -- off the grid: the first point with 53 bits lies between the candidate and the fraction
      have hreach := le_div_of_exponentFor hnum hden (by omega)
      have hj' : (j : ℚ) ≤ 2 ^ 53 := by exact_mod_cast hj.le
      have hbelow : (j : ℚ) * 2 ^ i ≤ 2 ^ 52 * 2 ^ exponentFor num den :=
        calc (j : ℚ) * 2 ^ i ≤ 2 ^ 53 * 2 ^ i := mul_le_mul_of_nonneg_right hj' (two_zpow_pos i).le
          _ = 2 ^ (((53 : ℕ) : ℤ) + i) := two_pow_mul_zpow 53 i
          _ ≤ 2 ^ (((52 : ℕ) : ℤ) + exponentFor num den) := zpow_le_zpow_right₀ (by norm_num) (by omega)
          _ = 2 ^ 52 * 2 ^ exponentFor num den := (two_pow_mul_zpow 52 _).symm
      have hnear := hgrid (2 ^ 52)
      rw [Nat.cast_pow, Nat.cast_ofNat] at hnear
      rw [abs_of_nonpos (sub_nonpos.mpr hreach)] at hnear
      rw [abs_of_nonpos (by linarith) (a := (j : ℚ) * 2 ^ i - num / den)]
      linarith

end Rounded

/-! ### Rounded numbers -/

/-- The largest finite number. -/
def largest : ℚ := ((2 ^ 53 - 1 : ℕ) : ℚ) * 2 ^ maxExponent

/-- A finite number whose magnitude is nearest to the rational, and off by one part in `2 ^ 53` at most where
the rational is not so small that it loses bits. -/
structure Rounds (q : ℚ) (x : Binary64) : Prop where
  isFinite : x.isFinite = true
  nearest : Nearest q |value x|
  close : 2 ^ (-1022 : ℤ) ≤ q → |(|value x| - q)| ≤ q / 2 ^ 53

theorem abs_value_finite (negative : Bool) (m : ℕ) (e : ℤ) :
    |value (.finite negative m e)| = (m : ℚ) * 2 ^ e := by
  have hpos : (0 : ℚ) ≤ (m : ℚ) * 2 ^ e := by positivity
  cases negative with
  | false => exact abs_of_nonneg hpos
  | true =>
      show |(-((m : ℚ) * 2 ^ e))| = _
      rw [abs_neg, abs_of_nonneg hpos]

theorem fits_zero : Fits 0 := ⟨0, minExponent, by norm_num, le_rfl, by simp⟩

theorem fits_largest : Fits largest := ⟨2 ^ 53 - 1, maxExponent, by norm_num, by decide, rfl⟩

theorem Fits.nearest {q : ℚ} (h : Fits q) : Nearest q q := by
  refine ⟨h, ?_⟩
  intro w _
  rw [sub_self, abs_zero]
  exact abs_nonneg _

theorem largest_lt : largest < 2 ^ (1024 : ℤ) := by
  have hsplit : (2 : ℚ) ^ (1024 : ℤ) = ((2 ^ 53 : ℕ) : ℚ) * 2 ^ maxExponent := by
    rw [Nat.cast_pow, Nat.cast_ofNat, two_pow_mul_zpow]
    rfl
  rw [hsplit]
  exact mul_lt_mul_of_pos_right (by norm_num) (two_zpow_pos _)

theorem Rounds.value_eq {q : ℚ} {x : Binary64} (h : Rounds q x) (hq : Fits q) : |value x| = q :=
  h.nearest.eq_of_fits hq

/-- A fraction up to the largest number is rounded to a finite number nearest to it. -/
theorem rounds_ofRatio (negative : Bool) {num den : ℕ} (hden : den ≠ 0) (h : (num : ℚ) / den ≤ largest) :
    Rounds (num / den) (ofRatio negative num den) := by
  by_cases hnum : num = 0
  · subst hnum
    have hzero : ofRatio negative 0 den = zero negative := if_pos (.inl rfl)
    have hvalue : |value (zero negative)| = 0 := by
      rw [zero, abs_value_finite]
      simp
    rw [hzero, Nat.cast_zero, zero_div]
    refine ⟨rfl, ?_, ?_⟩
    · rw [hvalue]
      exact fits_zero.nearest
    · rw [hvalue]
      simp
  · have hnear := nearest_mantissaFor hnum hden
    obtain ⟨m, e, hx, hme⟩ | ⟨-, hbeyond⟩ := ofRatio_cases negative hnum hden
    · rw [hx]
      refine ⟨rfl, ?_, ?_⟩
      · rw [abs_value_finite, hme]
        exact hnear
      · -- half a place is a small part of what reaches 52 places
        intro hlow
        have hu := two_zpow_pos (exponentFor num den)
        have hreach : 2 ^ 52 * 2 ^ exponentFor num den ≤ (num : ℚ) / den := by
          by_cases hleast : exponentFor num den = minExponent
          · rw [hleast, two_pow_mul_zpow]
            exact hlow
          · exact le_div_of_exponentFor hnum hden hleast
        have hhalf := mul_le_mul_of_nonneg_right (abs_mantissaFor_sub_le num hden) hu.le
        rw [← abs_of_pos hu, ← abs_mul, abs_of_pos hu, sub_mul, div_mul_cancel₀ _ hu.ne'] at hhalf
        rw [abs_value_finite, hme, le_div_iff₀ (by norm_num)]
        linarith
    · -- the largest number fits, so what is nearest does not lie beyond it
      exfalso
      have hle : (mantissaFor num den : ℚ) * 2 ^ exponentFor num den ≤ largest := by
        rcases h.lt_or_eq with hlt | heq
        · exact hnear.le_of_lt fits_largest.nearest hlt
        · rw [heq] at hnear
          exact (hnear.eq_of_fits fits_largest).le
      exact absurd (hbeyond.trans hle) (not_le.mpr largest_lt)

end ApiContract.Binary64
