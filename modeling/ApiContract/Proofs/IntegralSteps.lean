import ApiContract.Proofs.RoundedArithmetic

/-!
# Multiples of an integral step

Whether an integer is a multiple of a step whose value is a natural: an integer, or a double without a
fractional part (`HasIntegralValue`). The question is always answered (`isMultiple_integral`), and exactly so
where no floating-point number takes part. Otherwise the integer is first rounded to 53 bits (`held`), and a
remainder within a billionth of the step from a whole step counts as none (`remainderIsClose_iff`).
-/

namespace ApiContract

namespace Binary64

/-- The double nearest to a natural that is in range, as a natural. -/
def held (n : Nat) : Nat :=
  roundHalfEven n (Nat.pow 2 (n.log2 - 52)) * Nat.pow 2 (n.log2 - 52)

theorem roundHalfEven_one (n : ℕ) : roundHalfEven n 1 = n := by
  have := abs_le.mp (abs_roundHalfEven_sub_le n Nat.one_pos)
  rw [Nat.cast_one, div_one] at this
  have hlt : roundHalfEven n 1 < n + 1 := by
    have : (roundHalfEven n 1 : ℚ) < (n + 1 : ℕ) := by
      push_cast
      linarith
    exact_mod_cast this
  have hgt : n < roundHalfEven n 1 + 1 := by
    have : (n : ℚ) < (roundHalfEven n 1 + 1 : ℕ) := by
      push_cast
      linarith
    exact_mod_cast this
  omega

/-- A natural of at most 53 bits is held as it is. -/
theorem held_eq_self {n : ℕ} (h : n < 2 ^ 53) : held n = n := by
  have hlog : n.log2 - 52 = 0 := by
    have := log2_lt_of_lt (n := n) (k := 53) (by decide) h
    omega
  unfold held
  rw [hlog]
  show roundHalfEven n 1 * 1 = n
  rw [Nat.mul_one, roundHalfEven_one]

theorem exponentFor_one {n : ℕ} (hn : n ≠ 0) : exponentFor n 1 = (n.log2 : ℤ) - 52 := by
  have hlow : (2 : ℚ) ^ (n.log2 : ℤ) ≤ n := by
    rw [zpow_natCast]
    exact_mod_cast Nat.log2_self_le hn
  have hhigh : (n : ℚ) < 2 ^ ((n.log2 : ℤ) + 1) := by
    have := Nat.lt_log2_self (n := n)
    exact_mod_cast this
  have hlt := div_lt_of_exponentFor n one_ne_zero
  rw [Nat.cast_one, div_one, two_pow_mul_zpow] at hlt
  have hge := (zpow_lt_zpow_iff_right₀ one_lt_two).mp (hlow.trans_lt hlt)
  have hleast : exponentFor n 1 ≠ minExponent := by
    unfold minExponent
    omega
  have hle := le_div_of_exponentFor hn one_ne_zero hleast
  rw [Nat.cast_one, div_one, two_pow_mul_zpow] at hle
  have hlt' := (zpow_lt_zpow_iff_right₀ one_lt_two).mp (hle.trans_lt hhigh)
  omega

/-- The mantissa of a natural at its exponent. -/
theorem mantissaFor_one {n : ℕ} (hn : n ≠ 0) : (mantissaFor n 1 : ℚ) * 2 ^ exponentFor n 1 = held n := by
  unfold mantissaFor
  rw [exponentFor_one hn]
  by_cases hsize : n.log2 ≤ 52
  · obtain ⟨k, hk⟩ : ∃ k : ℕ, (n.log2 : ℤ) - 52 = -k := ⟨52 - n.log2, by omega⟩
    have hscaled : scaled n (- -(k : ℤ)) = (n * 2 ^ k, 1) := by
      rw [neg_neg]
      exact if_pos (by omega)
    have hsmall : n < 2 ^ 53 :=
      calc n < 2 ^ (n.log2 + 1) := Nat.lt_log2_self
        _ ≤ 2 ^ 53 := Nat.pow_le_pow_right (by decide) (by omega)
    rw [hk, hscaled, Nat.mul_one, roundHalfEven_one, held_eq_self hsmall, Nat.cast_mul, Nat.cast_pow,
      Nat.cast_ofNat, mul_assoc, two_pow_mul_zpow, add_neg_cancel, zpow_zero, mul_one]
  · obtain ⟨k, hk⟩ : ∃ k : ℕ, n.log2 = k + 52 + 1 := ⟨n.log2 - 53, by omega⟩
    have hscaled : scaled n (-(k + 1 : ℕ)) = (n, 2 ^ (k + 1)) := by
      unfold scaled
      rw [if_neg (by omega), neg_neg, Int.toNat_natCast]
      rfl
    have hexponent : (n.log2 : ℤ) - 52 = (k + 1 : ℕ) := by omega
    have hshift : n.log2 - 52 = k + 1 := by omega
    unfold held
    rw [hexponent, hscaled, Nat.mul_one, hshift, zpow_natCast]
    simp only [Nat.pow_eq, Nat.cast_mul, Nat.cast_pow, Nat.cast_ofNat]

/-- An integer that is not compared exactly becomes the double that holds its magnitude. -/
theorem exists_ofInt?_held {n : ℤ} (h : n.natAbs < Value.Number.exactFrom) :
    ∃ x, ofInt? n = some x ∧ x.isFinite = true ∧ x.IsDouble ∧ |value x| = held n.natAbs := by
  obtain ⟨x, hx⟩ := exists_ofInt? h
  have hof : ofInt n = x ∧ ∀ negative, ofInt n ≠ .infinite negative := by
    unfold ofInt? at hx
    split at hx
    · cases hx
    · rename_i hinfinite
      exact ⟨Option.some.inj hx, hinfinite⟩
  obtain ⟨rfl, hinfinite⟩ := hof
  have hdouble : (ofInt n).IsDouble := isDouble_ofRatio _ _ _
  by_cases hn : n.natAbs = 0
  · have hzero : ofInt n = zero (n < 0) := if_pos (.inl hn)
    rw [hzero] at hdouble hx
    refine ⟨_, hx, rfl, hdouble, ?_⟩
    rw [hn, held_eq_self (by decide), zero, abs_value_finite]
    simp
  · obtain ⟨m, e, hme, hvalue⟩ | ⟨hbad, -⟩ :=
      ofRatio_cases (n < 0) hn (one_ne_zero (α := ℕ))
    · have hfinite : ofInt n = .finite (n < 0) m e := hme
      rw [hfinite] at hdouble hx
      refine ⟨_, hx, rfl, hdouble, ?_⟩
      rw [abs_value_finite, hvalue, mantissaFor_one hn]
    · exact absurd hbad (hinfinite _)

end Binary64

namespace Value.Number

open Binary64

/-! ### The tolerance -/

theorem tolerance_eq : tolerance = .finite false 4835703278458517 (-82) := by decide +kernel

/-- The tolerance is a little more than a billionth. -/
theorem value_tolerance : 1 / 10 ^ 9 < value tolerance ∧ value tolerance * 10 ^ 9 ≤ 1 + 1 / 2 ^ 53 := by
  rw [tolerance_eq]
  show (1 : ℚ) / 10 ^ 9 < 4835703278458517 * 2 ^ (-82 : ℤ) ∧ (4835703278458517 : ℚ) * 2 ^ (-82 : ℤ) * 10 ^ 9 ≤ _
  norm_num

theorem isFinite_tolerance : tolerance.isFinite = true := by
  rw [tolerance_eq]
  rfl

theorem fits_tolerance : Fits (value tolerance) := by
  rw [tolerance_eq]
  exact ⟨4835703278458517, -82, by norm_num, by decide, rfl⟩

/-- A multiple of the tolerance is far above the numbers that lose bits. -/
theorem tiny_le_mul_tolerance {k : ℕ} (hk : 0 < k) : 2 ^ (-1022 : ℤ) ≤ value tolerance * k := by
  have hone : (1 : ℚ) ≤ k := by exact_mod_cast hk
  have htiny : (2 : ℚ) ^ (-1022 : ℤ) ≤ 2 ^ (-30 : ℤ) := zpow_le_zpow_right₀ (by norm_num) (by decide)
  have hthirty : (2 : ℚ) ^ (-30 : ℤ) ≤ 1 / 10 ^ 9 := by norm_num
  have htolerance := htiny.trans (hthirty.trans value_tolerance.1.le)
  exact htolerance.trans (le_mul_of_one_le_right ((two_zpow_pos _).le.trans htolerance) hone)

/-- Two different numbers are close if their distance is within the tolerance of one of them, all rounded. -/
theorem isClose_iff {a b : Binary64} (ha : a.isFinite = true) (hb : b.isFinite = true)
    (hgap : (b.add a.neg).isFinite = true) (hta : (tolerance.mul a).isFinite = true)
    (htb : (tolerance.mul b).isFinite = true) :
    isClose a b = true ↔ value a = value b ∨ |value (b.add a.neg)| ≤ |value (tolerance.mul b)| ∨
      |value (b.add a.neg)| ≤ |value (tolerance.mul a)| ∨ |value (b.add a.neg)| ≤ value tolerance := by
  unfold isClose
  by_cases heq : value a = value b
  · simp [compare?_eq_eq_iff ha hb, heq]
  · simp [compare?_eq_eq_iff ha hb, heq, ha, hb, atMost_iff, hgap, hta, htb, isFinite_tolerance, or_assoc]

section Close

variable {r step x : Binary64} {k s : ℕ}

theorem value_tolerance_pos : 0 < value tolerance := by
  have := value_tolerance.1
  exact lt_trans (by norm_num) this

theorem value_tolerance_lt : value tolerance * (1 + 1 / 2 ^ 53) < 1 := by
  have := value_tolerance.2
  linarith

theorem rounds_mul_tolerance (hx : x.isFinite = true) (hdx : x.IsDouble) :
    Rounds (value tolerance * |value x|) (tolerance.mul x) := by
  have hpos := value_tolerance_pos
  have hone : value tolerance ≤ 1 := by linarith [value_tolerance_lt]
  rw [← abs_of_pos hpos]
  apply rounds_mul isFinite_tolerance hx
  rw [abs_of_pos hpos]
  calc value tolerance * |value x| ≤ 1 * |value x| := mul_le_mul_of_nonneg_right hone (abs_nonneg _)
    _ ≤ largest := by rw [one_mul]; exact hdx.le_largest hx

/-- A number is close to nothing only where it is nothing, if its magnitude is a natural. -/
theorem isClose_zero_iff (hr : r.isFinite = true) (hdr : r.IsDouble) (hk : |value r| = k) :
    isClose r (zero false) = true ↔ k = 0 := by
  have hzero : value (zero false) = 0 := by simp [zero, value]
  have hsum : |value (zero false) + value r.neg| = k := by
    rw [hzero, value_neg, zero_add, abs_neg, hk]
  have hgap : Rounds k ((zero false).add r.neg) := by
    rw [← hsum]
    apply rounds_add rfl (isFinite_neg.trans hr)
    rw [hsum, ← hk]
    exact hdr.le_largest hr
  have hgapValue : |value ((zero false).add r.neg)| = k := by
    apply hgap.value_eq
    rw [← hk]
    exact hdr.fits hr
  -- of the four ways to be close only the first one is left, as every tolerance is below the number
  have hta := rounds_mul_tolerance hr hdr
  have htb := rounds_mul_tolerance (x := zero false) rfl (isDouble_zero false)
  have htbValue : |value (tolerance.mul (zero false))| = 0 := by
    rw [hzero, abs_zero, mul_zero] at htb
    exact htb.value_eq fits_zero
  rw [isClose_iff hr rfl hgap.isFinite hta.isFinite htb.isFinite, hgapValue, htbValue, hzero,
    ← abs_eq_zero, hk]
  constructor
  · intro h
    by_contra hne
    have hpos : 0 < k := Nat.pos_of_ne_zero hne
    have hone : (1 : ℚ) ≤ k := by exact_mod_cast hpos
    -- the tolerance of the number itself stays below it even when it is rounded up
    have hbelow : |value (tolerance.mul r)| < k := by
      rw [hk] at hta
      have hclose := (abs_le.mp (hta.close (tiny_le_mul_tolerance hpos))).2
      have := mul_lt_mul_of_pos_right value_tolerance_lt (lt_of_lt_of_le one_pos hone)
      linarith
    have htolerance := value_tolerance_lt
    have hpositive := value_tolerance_pos
    rcases h with h | h | h | h
    · linarith
    · linarith
    · linarith
    · linarith
  · rintro rfl
    exact .inl Nat.cast_zero

/-- A natural below the step is close to it if their distance is within the tolerance of the step, both
rounded. -/
theorem isClose_step_iff (hr : r.isFinite = true) (hdr : r.IsDouble) (hstep : step.isFinite = true)
    (hdstep : step.IsDouble) (hk : value r = k) (hs : value step = s) (hlt : k < s) :
    Rounds (s - k : ℕ) (step.add r.neg) ∧
      (isClose r step = true ↔ |value (step.add r.neg)| ≤ |value (tolerance.mul step)|) := by
  have hsAbs : |value step| = s := by rw [hs, Nat.abs_cast]
  have hkAbs : |value r| = k := by rw [hk, Nat.abs_cast]
  have hlt' : (k : ℚ) < s := by exact_mod_cast hlt
  have hsum : |value step + value r.neg| = (s - k : ℕ) := by
    rw [value_neg, hs, hk, Nat.cast_sub hlt.le, ← sub_eq_add_neg, abs_of_nonneg (by linarith)]
  have hgap : Rounds (s - k : ℕ) (step.add r.neg) := by
    rw [← hsum]
    apply rounds_add hstep (isFinite_neg.trans hr)
    rw [hsum]
    calc ((s - k : ℕ) : ℚ) ≤ s := by exact_mod_cast Nat.sub_le s k
      _ = |value step| := hsAbs.symm
      _ ≤ largest := hdstep.le_largest hstep
  have hta := rounds_mul_tolerance hr hdr
  have htb := rounds_mul_tolerance hstep hdstep
  have hpos := value_tolerance_pos
  refine ⟨hgap, ?_⟩
  rw [isClose_iff hr hstep hgap.isFinite hta.isFinite htb.isFinite]
  -- rounding keeps order, so the tolerance of the step is the largest of the three
  have hle : |value (tolerance.mul r)| ≤ |value (tolerance.mul step)| := by
    apply hta.nearest.le_of_lt htb.nearest
    rw [hsAbs, hkAbs]
    exact mul_lt_mul_of_pos_left hlt' hpos
  have hle' : value tolerance ≤ |value (tolerance.mul step)| := by
    rw [hsAbs] at htb
    rcases (Nat.one_le_of_lt hlt).lt_or_eq with hone | rfl
    · apply fits_tolerance.nearest.le_of_lt htb.nearest
      have : (1 : ℚ) < s := by exact_mod_cast hone
      exact lt_mul_of_one_lt_right hpos this
    · rw [Nat.cast_one, mul_one] at htb
      exact (htb.value_eq fits_tolerance).ge
  constructor
  · rintro (h | h | h | h)
    · rw [hk, hs] at h
      exact absurd h hlt'.ne
    · exact h
    · exact h.trans hle
    · exact h.trans hle'
  · intro h
    exact .inr (.inl h)

/-! ### The remainder -/

/-- Within a billionth of the step, the rounded distance is within the rounded tolerance. -/
theorem le_of_billionth {d : ℕ} (hgap : Rounds d r) (hbound : Rounds (value tolerance * s) x) (hs : 0 < s)
    (h : 10 ^ 9 * d ≤ s) : |value r| ≤ |value x| := by
  apply hgap.nearest.le_of_lt hbound.nearest
  have h' : (10 : ℚ) ^ 9 * d ≤ s := by exact_mod_cast h
  have hs' : (0 : ℚ) < s := by exact_mod_cast hs
  have := mul_lt_mul_of_pos_right value_tolerance.1 hs'
  linarith

/-- Conversely the rounded distance is within the rounded tolerance only where the distance is within a
billionth of the step, up to one part in `2 ^ 51`. -/
theorem billionth_of_le {d : ℕ} (hgap : Rounds d r) (hbound : Rounds (value tolerance * s) x) (hd : 0 < d)
    (hs : 0 < s) (h : |value r| ≤ |value x|) : 10 ^ 9 * d ≤ s + s / 2 ^ 51 := by
  have hd' : (1 : ℚ) ≤ d := by exact_mod_cast hd
  have hs' : (0 : ℚ) < s := by exact_mod_cast hs
  have htiny : (2 : ℚ) ^ (-1022 : ℤ) ≤ d :=
    le_trans (zpow_le_one_of_nonpos₀ (by norm_num) (by decide)) hd'
  have hlow := (abs_le.mp (hgap.close htiny)).1
  have hhigh := (abs_le.mp (hbound.close (tiny_le_mul_tolerance hs))).2
  have htolerance := mul_le_mul_of_nonneg_right value_tolerance.2 hs'.le
  have hreal : ((10 ^ 9 * d : ℕ) : ℚ) * 2 ^ 51 ≤ (s * 2 ^ 51 + s : ℕ) := by
    push_cast
    linarith
  -- the quotient by `2 ^ 51` is that of naturals
  have hnat : 10 ^ 9 * d * 2 ^ 51 ≤ s * 2 ^ 51 + s := by exact_mod_cast hreal
  omega

/-- The remainder is close if there is none, or if it lacks a billionth of the step at most; beyond one part
in `2 ^ 51` more it is not. -/
theorem remainderIsClose_iff (hx : x.isFinite = true) (hdx : x.IsDouble) (hstep : step.isFinite = true)
    (hdstep : step.IsDouble) {m : ℕ} (hm : |value x| = m) (hs : value step = s) (hpos : 0 < s) :
    (s ∣ m ∨ 10 ^ 9 * (s - m % s) ≤ s → remainderIsClose x step = true) ∧
      (remainderIsClose x step = true → s ∣ m ∨ 10 ^ 9 * (s - m % s) ≤ s + s / 2 ^ 51) := by
  have hsAbs : |value step| = s := by rw [hs, Nat.abs_cast]
  obtain ⟨hr, hdr, hvr⟩ := abs_remainder hx hstep hdx hdstep hm hsAbs hpos
  have hlt : m % s < s := Nat.mod_lt m hpos
  obtain ⟨hgap, hclose⟩ := isClose_step_iff (r := (x.remainder step).abs) (isFinite_abs.trans hr)
    (isDouble_abs hdr) hstep hdstep (value_abs.trans hvr) hs hlt
  have hbound := rounds_mul_tolerance hstep hdstep
  rw [hsAbs] at hbound
  have hiff : remainderIsClose x step = true ↔ m % s = 0 ∨ isClose (x.remainder step).abs step = true := by
    show (isClose (x.remainder step) (zero false) || isClose (x.remainder step).abs step) = true ↔ _
    rw [Bool.or_eq_true, isClose_zero_iff hr hdr hvr]
  rw [hiff, hclose, ← Nat.dvd_iff_mod_eq_zero]
  constructor
  · rintro (h | h)
    · exact .inl h
    · exact .inr (le_of_billionth hgap hbound hpos h)
  · rintro (h | h)
    · exact .inl h
    · exact .inr (billionth_of_le hgap hbound (Nat.sub_pos_of_lt hlt) hpos h)

end Close

/-! ### Integral steps -/

/-- The number is an integer or a double without a fractional part, and this is its value. -/
def HasIntegralValue : Number → ℕ → Prop
  | .int n, s => n = s
  | .float x, s => x.IsDouble ∧ x.toInt? = some (s : ℤ)

/-- No floating-point number takes part in the comparison. -/
def ComparedAsIntegers (n : ℤ) : Number → Prop
  | .int _ => True
  | .float _ => exactFrom ≤ n.natAbs

theorem ratio?_of_toInt? {x : Binary64} {s : ℕ} (h : x.toInt? = some (s : ℤ)) :
    x.isFinite = true ∧ value x = s ∧ ∃ q : ℕ, 0 < q ∧ x.ratio? = some ((s : ℤ) * q, q) := by
  have hfinite : x.isFinite = true := by
    cases x with
    | nan => cases h
    | infinite => cases h
    | finite => rfl
  obtain ⟨p, q, hratio, hq, hvalue⟩ := ratio?_eq hfinite
  unfold toInt? at h
  rw [hratio] at h
  dsimp only [Option.bind_eq_bind, Option.bind_some] at h
  split_ifs at h with hmod
  have hp : p = s * q := by
    rw [← Option.some.inj h, Int.ediv_mul_cancel (Int.dvd_of_emod_eq_zero hmod)]
  refine ⟨hfinite, ?_, q, hq, ?_⟩
  · rw [hvalue, hp]
    push_cast
    exact mul_div_cancel_right₀ _ (by exact_mod_cast hq.ne')
  · rw [hratio, hp]

/-- Beyond the range of the doubles the comparison is one of exact fractions. -/
theorem isMultiple_float_of_le {n : ℤ} {x : Binary64} {s : ℕ} (hlarge : exactFrom ≤ n.natAbs)
    (hx : x.toInt? = some (s : ℤ)) : (Number.int n).isMultiple (.float x) = .ok (decide ((s : ℤ) ∣ n)) := by
  obtain ⟨-, -, q, hq, hratio⟩ := ratio?_of_toInt? hx
  have hanswer : (Number.int n).isMultiple (.float x) = .ok (n * q % (s * q) == 0) := by
    unfold isMultiple
    dsimp only
    rw [if_pos hlarge, hratio]
  have hq' : (q : ℤ) ≠ 0 := by exact_mod_cast hq.ne'
  have hexact : (n * q % (s * q) == 0) = true ↔ decide ((s : ℤ) ∣ n) = true := by
    rw [beq_iff_eq, ← Int.dvd_iff_emod_eq_zero, Int.mul_dvd_mul_iff_right hq', decide_eq_true_iff]
  rw [hanswer, Bool.eq_iff_iff.mpr hexact]

/-- Within it the integer becomes a double, and the remainder of doubles decides. -/
theorem isMultiple_float_of_lt {n : ℤ} (x : Binary64) (hsmall : n.natAbs < exactFrom) :
    ∃ y, (y.isFinite = true ∧ y.IsDouble ∧ |value y| = held n.natAbs) ∧
      (Number.int n).isMultiple (.float x) = .ok (remainderIsClose y x) := by
  obtain ⟨y, hy, hheld⟩ := exists_ofInt?_held hsmall
  refine ⟨y, hheld, ?_⟩
  unfold isMultiple toFloat
  dsimp only
  rw [if_neg (not_le.mpr hsmall), hy]
  rfl

/-- A step below a billion is too small for a remainder that lacks a billionth of it. -/
theorem dvd_of_lacks_billionth {m s : ℕ} (hs : 0 < s) (hsmall : s < 10 ^ 9)
    (h : s ∣ m ∨ 10 ^ 9 * (s - m % s) ≤ s + s / 2 ^ 51) : s ∣ m := by
  rcases h with h | h
  · exact h
  · -- what is missing to the next multiple is at least one
    have hlt : m % s < s := Nat.mod_lt _ hs
    omega

/-- **Whether an integer is a multiple of an integral step.** There is always an answer. It is exact where no
floating-point number takes part, and for an integer that a double holds it is exact below `10 ^ 9`. In
general the integer is rounded to 53 bits first, and the answer is also yes where the rounded integer lacks a
billionth of the step at most to be a multiple. -/
theorem isMultiple_integral (n : ℤ) {step : Number} {s : ℕ} (hstep : step.HasIntegralValue s) (hs : 0 < s) :
    ∃ answer, (Number.int n).isMultiple step = .ok answer ∧
      (step.ComparedAsIntegers n → (answer = true ↔ (s : ℤ) ∣ n)) ∧
      (held n.natAbs = n.natAbs → s < 10 ^ 9 → (answer = true ↔ (s : ℤ) ∣ n)) ∧
      (¬ step.ComparedAsIntegers n →
        (s ∣ held n.natAbs ∨ 10 ^ 9 * (s - held n.natAbs % s) ≤ s → answer = true) ∧
        (answer = true →
          s ∣ held n.natAbs ∨ 10 ^ 9 * (s - held n.natAbs % s) ≤ s + s / 2 ^ 51)) := by
  cases step with
  | int k =>
      have hk : k = s := hstep
      subst hk
      have hexact : decide ((s : ℤ) ∣ n) = true ↔ (s : ℤ) ∣ n := decide_eq_true_iff
      refine ⟨_, isMultiple_int n s, fun _ => hexact, fun _ _ => hexact, ?_⟩
      intro h
      exact absurd trivial h
  | float x =>
      obtain ⟨hdouble, hx⟩ := hstep
      by_cases hlarge : exactFrom ≤ n.natAbs
      · have hexact : decide ((s : ℤ) ∣ n) = true ↔ (s : ℤ) ∣ n := decide_eq_true_iff
        refine ⟨_, isMultiple_float_of_le hlarge hx, fun _ => hexact, fun _ _ => hexact, ?_⟩
        intro h
        exact absurd hlarge h
      · obtain ⟨hfinite, hvalue, -⟩ := ratio?_of_toInt? hx
        obtain ⟨y, ⟨hyFinite, hyDouble, hyValue⟩, hanswer⟩ := isMultiple_float_of_lt x (not_le.mp hlarge)
        obtain ⟨hyes, hno⟩ := remainderIsClose_iff hyFinite hyDouble hfinite hdouble hyValue hvalue hs
        refine ⟨_, hanswer, fun h => absurd h hlarge, ?_, fun _ => ⟨hyes, hno⟩⟩
        intro hheld hsmall
        rw [Int.natCast_dvd, ← hheld]
        exact ⟨fun hclose => dvd_of_lacks_billionth hs hsmall (hno hclose), fun h => hyes (.inl h)⟩

/-- Multiples of 4 and of the double 4. -/
theorem isMultiple_four : Number.HasIntegralValue (.float (ofInt 4)) 4 ∧ 0 < 4 ∧
    ∃ answer, (Number.int 12).isMultiple (.float (ofInt 4)) = .ok answer ∧
      (held 12 = 12 → 4 < 10 ^ 9 → (answer = true ↔ (4 : ℤ) ∣ 12)) := by
  have hstep : Number.HasIntegralValue (.float (ofInt 4)) 4 := by
    have hfour : ofInt 4 = .finite false (2 ^ 52) (-50) := by decide +kernel
    rw [hfour]
    exact ⟨⟨by decide, by decide, by decide⟩, by decide +kernel⟩
  have hpos : 0 < 4 := by decide
  obtain ⟨answer, hanswer, -, hexact, -⟩ := isMultiple_integral 12 hstep hpos
  exact ⟨hstep, hpos, answer, hanswer, hexact⟩

/-- The integer `2 ^ 53 + 1` counts as even, and 999999999 as a multiple of a billion. -/
theorem isMultiple_odd :
    (Number.int 9007199254740993).isMultiple (.float (ofInt 2)) = .ok true ∧ ¬ (2 : ℤ) ∣ 9007199254740993 ∧
      (Number.int 999999999).isMultiple (.float (ofInt 1000000000)) = .ok true ∧
      ¬ (1000000000 : ℤ) ∣ 999999999 := by
  refine ⟨by decide +kernel, by decide, by decide +kernel, by decide⟩

end Value.Number

end ApiContract
