import ApiContract.Number.Divisibility
import ApiContract.Number.Reading
import ApiContract.Proofs.IntegerText

/-!
# The range of floating-point numbers

Whatever rounding gives is a double (`isDouble_ofRatio`): its mantissa has at most 53 bits and its exponent
is in range, and so is what is read from a text (`isDouble_readFloat?`). Hence the integer that a double
equals stays far below the limit of decimal text (`withinLimit_of_toInt?`), and an integer below `exactFrom`
has a nearest double (`exists_ofInt?`).
-/

namespace ApiContract.Binary64

/-- A number of at most 53 significant bits and an exponent in range. -/
def IsDouble : Binary64 → Prop
  | .finite _ m e => m < Nat.pow 2 53 ∧ minExponent ≤ e ∧ e ≤ maxExponent
  | _ => True

/-! ### Rounding -/

theorem roundHalfEven_le {num den k : Nat} (h : num < k * den) : roundHalfEven num den ≤ k := by
  have hq : num / den < k := by
    rw [Nat.mul_comm] at h
    exact Nat.div_lt_of_lt_mul h
  unfold roundHalfEven
  dsimp only
  split_ifs
  all_goals omega

/-- Where an exponent is large enough for the sizes of the two numbers, the mantissa is short enough. -/
theorem scaled_lt_of_size {num den a b : Nat} {e : Int} (hnum : num < Nat.pow 2 a)
    (hden : Nat.pow 2 b ≤ den) (h : (a : Int) ≤ 53 + e + b) :
    (scaled num (-e)).1 < Nat.pow 2 53 * ((scaled num (-e)).2 * den) := by
  unfold scaled
  simp only [Nat.pow_eq]
  split_ifs with he
  · obtain ⟨k, rfl⟩ : ∃ k : Nat, e = -k := ⟨(-e).toNat, by omega⟩
    have hk : (-(-(k : Int))).toNat = k := by omega
    rw [hk, Nat.one_mul]
    calc num * 2 ^ k < 2 ^ a * 2 ^ k := Nat.mul_lt_mul_of_pos_right hnum (Nat.two_pow_pos k)
      _ = 2 ^ (a + k) := (Nat.pow_add 2 a k).symm
      _ ≤ 2 ^ (53 + b) := Nat.pow_le_pow_right (by decide) (by omega)
      _ = 2 ^ 53 * 2 ^ b := Nat.pow_add 2 53 b
      _ ≤ 2 ^ 53 * den := Nat.mul_le_mul_left _ hden
  · obtain ⟨k, rfl⟩ : ∃ k : Nat, e = k := ⟨e.toNat, by omega⟩
    have hk : (-(-(k : Int))).toNat = k := by omega
    rw [hk]
    calc num < 2 ^ a := hnum
      _ ≤ 2 ^ (53 + (k + b)) := Nat.pow_le_pow_right (by decide) (by omega)
      _ = 2 ^ 53 * (2 ^ k * 2 ^ b) := by rw [Nat.pow_add, Nat.pow_add]
      _ ≤ 2 ^ 53 * (2 ^ k * den) := Nat.mul_le_mul_left _ (Nat.mul_le_mul_left _ hden)

/-- The exponent that is chosen leaves a mantissa of at most 53 bits. -/
theorem scaled_exponentFor_lt {num den : Nat} (hden : den ≠ 0) :
    (scaled num (-exponentFor num den)).1 <
      Nat.pow 2 53 * ((scaled num (-exponentFor num den)).2 * den) := by
  have hlog : 2 ^ den.log2 ≤ den := Nat.log2_self_le hden
  have hlarge {e : Int} (he : (num.log2 : Int) - den.log2 - 52 ≤ e) :=
    scaled_lt_of_size (e := e) (Nat.lt_log2_self (n := num)) hlog (by omega)
  by_cases he : (num.log2 : Int) - den.log2 - 52 ≤ exponentFor num den
  · exact hlarge he
  · -- the exponent is the lower candidate, which was taken because its mantissa is short enough
    have hlow : exponentFor num den = (num.log2 : Int) - den.log2 - 53 ∧
        (scaled num (-((num.log2 : Int) - den.log2 - 53))).1 /
          ((scaled num (-((num.log2 : Int) - den.log2 - 53))).2 * den) < Nat.pow 2 53 := by
      unfold exponentFor at he ⊢
      dsimp only at he ⊢
      split_ifs at he ⊢ with htest
      · exact ⟨by omega, htest⟩
      · omega
    rw [hlow.1]
    have hpos : 0 < (scaled num (-((num.log2 : Int) - den.log2 - 53))).2 * den :=
      Nat.mul_pos (scaled_snd_pos _ _) (Nat.pos_of_ne_zero hden)
    exact (Nat.div_lt_iff_lt_mul hpos).mp hlow.2

theorem minExponent_le_exponentFor (num den : Nat) : minExponent ≤ exponentFor num den := by
  unfold exponentFor
  exact Int.le_max_right _ _

theorem isDouble_zero (negative : Bool) : (zero negative).IsDouble :=
  ⟨Nat.pow_pos (by decide), by decide, by decide⟩

/-- Rounding gives doubles. -/
theorem isDouble_ofRatio (negative : Bool) (num den : Nat) : (ofRatio negative num den).IsDouble := by
  unfold ofRatio
  split_ifs with hzero
  · exact isDouble_zero negative
  · have hle : roundHalfEven (scaled num (-exponentFor num den)).1
        ((scaled num (-exponentFor num den)).2 * den) ≤ Nat.pow 2 53 :=
      roundHalfEven_le (scaled_exponentFor_lt fun h => hzero (.inr h))
    have hleast := minExponent_le_exponentFor num den
    dsimp only
    by_cases hm : roundHalfEven (scaled num (-exponentFor num den)).1
        ((scaled num (-exponentFor num den)).2 * den) = Nat.pow 2 53
    · rw [if_pos hm]
      dsimp only
      split_ifs with hmax
      · trivial
      · exact ⟨Nat.pow_lt_pow_right (by decide) (by decide), by omega, by omega⟩
    · rw [if_neg hm]
      dsimp only
      split_ifs with hmax
      · trivial
      · exact ⟨Nat.lt_of_le_of_ne hle hm, hleast, by omega⟩

/-- What is read from a text is a double. -/
theorem isDouble_readFloat? {text : List Char} {x : Binary64} (h : Numeral.readFloat? text = some x) :
    x.IsDouble := by
  obtain ⟨parts, -, rfl⟩ := Option.map_eq_some_iff.mp h
  unfold Numeral.Parts.toBinary64
  dsimp only
  split_ifs
  · exact isDouble_zero _
  · trivial
  · exact isDouble_zero _
  · exact isDouble_ofRatio _ _ _
  · exact isDouble_ofRatio _ _ _

theorem isDouble_toFloat {text : List Char} {x : Binary64} (h : Numeral.toFloat text = .ok x) :
    x.IsDouble := by
  unfold Numeral.toFloat at h
  dsimp only at h
  split at h
  · rename_i y hy
    obtain rfl := Except.ok.inj h
    exact isDouble_readFloat? hy
  · split_ifs at h
    · obtain rfl := Except.ok.inj h
      trivial
    · obtain rfl := Except.ok.inj h
      trivial

/-! ### Integers -/

theorem scaled_fst_lt {m a b : Nat} {e : Int} (hm : m < Nat.pow 2 a) (he : e ≤ b) :
    (scaled m e).1 < Nat.pow 2 (a + b) := by
  unfold scaled
  simp only [Nat.pow_eq]
  split_ifs with hsign
  · calc m * 2 ^ e.toNat < 2 ^ a * 2 ^ e.toNat := Nat.mul_lt_mul_of_pos_right hm (Nat.two_pow_pos _)
      _ = 2 ^ (a + e.toNat) := (Nat.pow_add 2 a e.toNat).symm
      _ ≤ 2 ^ (a + b) := Nat.pow_le_pow_right (by decide) (by omega)
  · exact Nat.lt_of_lt_of_le hm (Nat.pow_le_pow_right (by decide) (Nat.le_add_right a b))

theorem lt_ten_pow {n k l : Nat} (h : n < Nat.pow 2 k) (hk : k ≤ l) : n < Nat.pow 10 l :=
  calc n < Nat.pow 2 k := h
    _ ≤ Nat.pow 10 k := Nat.pow_le_pow_left (by decide) k
    _ ≤ Nat.pow 10 l := Nat.pow_le_pow_right (by decide) hk

theorem log2_lt_of_lt {n k : Nat} (hk : 0 < k) (h : n < Nat.pow 2 k) : n.log2 < k := by
  by_cases hzero : n = 0
  · rw [hzero]
    exact hk
  · exact (Nat.log2_lt hzero).mpr h

/-- The integer that a double equals has a decimal text. -/
theorem withinLimit_of_toInt? {x : Binary64} (hx : x.IsDouble) {n : Int} (h : x.toInt? = some n) :
    Numeral.withinLimit n = true := by
  cases x with
  | nan => cases h
  | infinite s => cases h
  | finite s m e =>
      have hbound := scaled_fst_lt (b := 971) hx.1 hx.2.2
      have hnum : (if s then -((scaled m e).1 : Int) else (scaled m e).1).natAbs = (scaled m e).1 := by
        split <;> simp
      have hn : n.natAbs ≤ (scaled m e).1 := by
        unfold toInt? ratio? at h
        dsimp only [Option.bind_eq_bind, Option.bind_some] at h
        rw [← hnum]
        split_ifs at h with hs hdvd
        · obtain rfl := Option.some.inj h
          rw [if_pos hs]
          exact Int.natAbs_ediv_le_natAbs _ _
        · rename_i hdvd
          obtain rfl := Option.some.inj h
          rw [if_neg hs]
          exact Int.natAbs_ediv_le_natAbs _ _
      rw [Numeral.withinLimit, decide_eq_true_eq]
      exact lt_ten_pow (Nat.lt_of_le_of_lt hn hbound) (by decide)

theorem exponentFor_le (num den : Nat) :
    exponentFor num den ≤ max ((num.log2 : Int) - den.log2 - 52) minExponent := by
  unfold exponentFor
  dsimp only
  split_ifs
  all_goals omega

/-- Rounding up by one place does not leave the range. -/
theorem isFinite_ofRatio {negative : Bool} {num den : Nat} (h : exponentFor num den < maxExponent) :
    (ofRatio negative num den).isFinite = true := by
  unfold ofRatio
  split_ifs
  · rfl
  · dsimp only
    by_cases hm : roundHalfEven (scaled num (-exponentFor num den)).1
        ((scaled num (-exponentFor num den)).2 * den) = Nat.pow 2 53
    · rw [if_pos hm]
      dsimp only
      rw [if_neg (by omega)]
      rfl
    · rw [if_neg hm]
      dsimp only
      rw [if_neg (by omega)]
      rfl

/-- An integer that is not compared exactly is in the range of doubles. -/
theorem exists_ofInt? {n : Int} (h : n.natAbs < Value.Number.exactFrom) : ∃ x, ofInt? n = some x := by
  have hlog : n.natAbs.log2 < 1023 := by
    -- the power itself is never computed
    unfold Value.Number.exactFrom at h
    generalize hk : 1023 = k at h ⊢
    exact log2_lt_of_lt (by omega) h
  have hexponent := exponentFor_le n.natAbs 1
  have hfinite : (ofInt n).isFinite = true := by
    refine isFinite_ofRatio (Int.lt_of_le_of_lt hexponent ?_)
    have hone : Nat.log2 1 = 0 := by decide
    rw [hone, minExponent, maxExponent]
    omega
  unfold ofInt?
  split
  · rename_i s hinfinite
    rw [hinfinite] at hfinite
    cases hfinite
  · exact ⟨_, rfl⟩

end ApiContract.Binary64
