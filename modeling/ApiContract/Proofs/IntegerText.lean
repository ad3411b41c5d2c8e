import ApiContract.Normalization.Convert
import ApiContract.Proofs.ListLemmas

/-!
# Integers as text

A sign and digits of any script are read as the integer that the digits denote
(`readInt?_of_digits`): among them are no blanks, underscores or line feed that reading would treat on
their own. So the decimal text of an integer is read back as the integer, whatever zeros stand before its
digits (`readInt?_paddedChars`), also by conversion toward a number (`Convert.number_paddedChars`).
Conversely, an integer that is read is within the limit (`withinLimit_of_readInt?`).
-/

namespace ApiContract

namespace Numeral

open ApiContract.Text

/-! ### Digits -/

/-- A row of decimal digits of any script. -/
def IsDigits (ds : List Char) : Prop := ∀ c ∈ ds, isDecimalDigit c = true

/-- The digits of a script are ten code points in a row. -/
theorem exists_zero_of_isDecimalDigit {c : Char} (h : isDecimalDigit c = true) :
    ∃ z ∈ decimalZeros, z ≤ c.toNat ∧ c.toNat < z + 10 := by
  obtain ⟨d, hd⟩ := Option.isSome_iff_exists.mp h
  unfold digitValue? at hd
  split_ifs at hd with hlow hascii
  · have hfirst : 0x30 ≤ c.toNat := hascii.1
    have hlast : c.toNat ≤ 0x39 := hascii.2
    exact ⟨0x30, by decide, hfirst, by omega⟩
  · obtain ⟨z, hz, -⟩ := Option.map_eq_some_iff.mp hd
    have hrange := List.find?_some hz
    rw [Bool.and_eq_true, decide_eq_true_eq, decide_eq_true_eq] at hrange
    exact ⟨z, List.mem_of_find?_eq_some hz, hrange⟩

theorem isBlank_of_isDecimalDigit {c : Char} (h : isDecimalDigit c = true) : isBlank c = false := by
  have hclear : ∀ z ∈ decimalZeros, ∀ r ∈ blankRanges, r.2 < z ∨ z + 9 < r.1 := by decide
  obtain ⟨z, hz, hlow, hhigh⟩ := exists_zero_of_isDecimalDigit h
  unfold isBlank inRanges
  rw [List.any_eq_false]
  intro r hr
  rw [Bool.and_eq_true, decide_eq_true_eq, decide_eq_true_eq]
  rcases hclear z hz r hr with hbelow | habove <;> omega

theorem exists_digitChar_of_mem {n : Nat} {c : Char} (h : c ∈ digits n) :
    ∃ d < 10, c = Nat.digitChar d := by
  induction n using Nat.strongRecOn with
  | ind n ih =>
    unfold digits at h ih
    by_cases hn : n < 10
    · rw [Nat.toDigits_of_lt_base hn] at h
      exact ⟨n, hn, List.mem_singleton.mp h⟩
    · rw [Nat.toDigits_of_base_le (by decide) (by omega)] at h
      rcases List.mem_append.mp h with h | h
      · exact ih (n / 10) (by omega) h
      · exact ⟨n % 10, Nat.mod_lt n (by decide), List.mem_singleton.mp h⟩

theorem isDigits_digits (n : Nat) : IsDigits (digits n) := by
  intro c hc
  obtain ⟨d, hd, rfl⟩ := exists_digitChar_of_mem hc
  rw [isDecimalDigit, digitValue?_digitChar hd]
  rfl

theorem digits_ne_nil (n : Nat) : digits n ≠ [] := Nat.toDigits_ne_nil

/-! ### Blanks, underscores and signs -/

theorem dropWhile_of_no_blank {cs : List Char} (h : ∀ c ∈ cs, isBlank c = false) :
    cs.dropWhile isBlank = cs := by
  cases cs with
  | nil => rfl
  | cons c cs => rw [List.dropWhile_cons, h c List.mem_cons_self, if_neg Bool.false_ne_true]

theorem reverse_dropWhile_of_no_blank {cs : List Char} (h : ∀ c ∈ cs, isBlank c = false) :
    (cs.reverse.dropWhile isBlank).reverse = cs := by
  rw [dropWhile_of_no_blank fun c hc => h c (List.mem_reverse.mp hc), List.reverse_reverse]

theorem trimBlanks_of_no_blank {cs : List Char} (h : ∀ c ∈ cs, isBlank c = false) :
    trimBlanks cs = cs := by
  unfold trimBlanks
  rw [dropWhile_of_no_blank h, reverse_dropWhile_of_no_blank h]

theorem trimBlanks_concat {cs : List Char} (h : ∀ c ∈ cs, isBlank c = false) {b : Char}
    (hb : isBlank b = true) : trimBlanks (cs ++ [b]) = cs := by
  unfold trimBlanks
  cases cs with
  | nil =>
      rw [List.nil_append, List.dropWhile_cons, if_pos hb]
      rfl
  | cons c cs =>
      rw [List.cons_append, List.dropWhile_cons, h c List.mem_cons_self, if_neg Bool.false_ne_true,
        ← List.cons_append, List.reverse_concat, List.dropWhile_cons, if_pos hb,
        reverse_dropWhile_of_no_blank h]

theorem dropUnderscores_of_no_underscore {cs : List Char} (h : ∀ c ∈ cs, c ≠ '_') :
    dropUnderscores cs = some cs := by
  induction cs with
  | nil => rfl
  | cons c cs ih =>
      have hcs := ih fun d hd => h d (List.mem_cons_of_mem _ hd)
      rw [dropUnderscores.eq_def]
      split
      · rename_i heq
        cases heq
      · rename_i heq
        obtain ⟨rfl, -⟩ := List.cons.inj heq
        exact absurd rfl (h '_' List.mem_cons_self)
      · rename_i heq
        obtain ⟨rfl, rfl⟩ := List.cons.inj heq
        exact absurd rfl (h '_' (List.mem_cons_of_mem _ List.mem_cons_self))
      · rename_i heq
        obtain ⟨rfl, rfl⟩ := List.cons.inj heq
        exact absurd rfl (h '_' (List.mem_cons_of_mem _ List.mem_cons_self))
      · rename_i heq
        obtain ⟨rfl, rfl⟩ := List.cons.inj heq
        rw [hcs]
        rfl

theorem takeSign_of_digits {ds : List Char} (h : IsDigits ds) : takeSign ds = (false, ds) := by
  unfold takeSign
  split
  · exact absurd (h '+' List.mem_cons_self) (by decide)
  · exact absurd (h '-' List.mem_cons_self) (by decide)
  · rfl

theorem mem_intChars {n : Int} {c : Char} (h : c ∈ intChars n) : c = '-' ∨ isDecimalDigit c = true := by
  unfold intChars at h
  split at h
  · rcases List.mem_cons.mp h with h | h
    · exact .inl h
    · exact .inr (isDigits_digits _ c h)
  · exact .inr (isDigits_digits _ c h)

/-- A text holds a sign, if there is one, before the rest. -/
theorem of_mem_of_takeSign {cs ds : List Char} {negative : Bool} (h : takeSign cs = (negative, ds))
    {c : Char} (hc : c ∈ cs) : c = '+' ∨ c = '-' ∨ c ∈ ds := by
  unfold takeSign at h
  split at h
  · obtain ⟨-, rfl⟩ := Prod.mk.inj h
    rcases List.mem_cons.mp hc with hplus | hc
    · exact .inl hplus
    · exact .inr (.inr hc)
  · obtain ⟨-, rfl⟩ := Prod.mk.inj h
    rcases List.mem_cons.mp hc with hminus | hc
    · exact .inr (.inl hminus)
    · exact .inr (.inr hc)
  · obtain ⟨-, rfl⟩ := Prod.mk.inj h
    exact .inr (.inr hc)

/-- Digits of any script behind a sign are read as the integer that they denote. -/
theorem readInt?_of_digits {text ds : List Char} {negative : Bool} {n : Nat}
    (htext : takeSign (trimBlanks text) = (negative, ds)) (hdigits : IsDigits ds)
    (hlength : ds.length ≤ digitLimit) (hvalue : ofDigits? ds = some n) :
    readInt? text = some (if negative then -(n : Int) else n) := by
  have hunderscore : ∀ c ∈ ds, c ≠ '_' := by
    rintro _ hc rfl
    exact absurd (hdigits '_' hc) (by decide)
  unfold readInt?
  rw [htext]
  dsimp only
  rw [dropUnderscores_of_no_underscore hunderscore]
  dsimp only [Option.bind_eq_bind, Option.bind_some]
  rw [if_neg (Nat.not_lt.mpr hlength), hvalue]
  rfl

/-! ### Zeros before the digits -/

/-- The decimal text of an integer with zeros before its digits. A plus may stand before an integer that is
not negative. -/
def paddedChars (plus : Bool) (zeros : Nat) (n : Int) : List Char :=
  (if n < 0 then ['-'] else if plus then ['+'] else []) ++
    (List.replicate zeros '0' ++ digits n.natAbs)

theorem intChars_eq_paddedChars (n : Int) : intChars n = paddedChars false 0 n := by
  unfold intChars paddedChars
  by_cases hn : n < 0
  · rw [if_pos hn, if_pos hn]
    rfl
  · rw [if_neg hn, if_neg hn]
    rfl

theorem isDigits_padded (zeros n : Nat) : IsDigits (List.replicate zeros '0' ++ digits n) := by
  intro c h
  rcases List.mem_append.mp h with h | h
  · rw [List.eq_of_mem_replicate h]
    decide
  · exact isDigits_digits n c h

/-- Behind its sign the text of an integer has zeros and the digits of its magnitude. -/
theorem takeSign_paddedChars (plus : Bool) (zeros : Nat) (n : Int) :
    takeSign (paddedChars plus zeros n) =
      (decide (n < 0), List.replicate zeros '0' ++ digits n.natAbs) := by
  unfold paddedChars
  split_ifs with hn
  · rw [decide_eq_true hn]
    rfl
  · rw [decide_eq_false hn]
    rfl
  · rw [decide_eq_false hn]
    exact takeSign_of_digits (isDigits_padded zeros n.natAbs)

theorem isBlank_of_mem_paddedChars {plus : Bool} {zeros : Nat} {n : Int} {c : Char}
    (h : c ∈ paddedChars plus zeros n) : isBlank c = false := by
  rcases of_mem_of_takeSign (takeSign_paddedChars plus zeros n) h with rfl | rfl | hc
  · decide
  · decide
  · exact isBlank_of_isDecimalDigit (isDigits_padded zeros n.natAbs c hc)

theorem ofDigits?_zero_cons {ds : List Char} (h : ds ≠ []) : ofDigits? ('0' :: ds) = ofDigits? ds := by
  unfold ofDigits?
  rw [if_neg (by simp), if_neg (by simpa using h)]
  rfl

/-- Zeros before its digits do not change a number. -/
theorem ofDigits?_padded (zeros n : Nat) :
    ofDigits? (List.replicate zeros '0' ++ digits n) = some n := by
  induction zeros with
  | zero => exact ofDigits?_digits n
  | succ k ih =>
      rw [List.replicate_succ, List.cons_append, ofDigits?_zero_cons, ih]
      exact List.append_ne_nil_of_right_ne_nil _ (digits_ne_nil n)

/-- The text of an integer is read as the integer, up to the limit of digits. -/
theorem readInt?_paddedChars {plus : Bool} {zeros : Nat} {n : Int}
    (h : zeros + (digits n.natAbs).length ≤ digitLimit) : readInt? (paddedChars plus zeros n) = some n := by
  have htrim : trimBlanks (paddedChars plus zeros n) = paddedChars plus zeros n :=
    trimBlanks_of_no_blank fun c hc => isBlank_of_mem_paddedChars hc
  have hlength : (List.replicate zeros '0' ++ digits n.natAbs).length ≤ digitLimit := by
    rwa [List.length_append, List.length_replicate]
  rw [readInt?_of_digits (htrim ▸ takeSign_paddedChars plus zeros n)
    (isDigits_padded zeros n.natAbs) hlength (ofDigits?_padded zeros n.natAbs)]
  split
  · rename_i hn
    rw [Int.ofNat_natAbs_of_nonpos (Int.le_of_lt (of_decide_eq_true hn)), Int.neg_neg]
  · rename_i hn
    rw [Int.natAbs_of_nonneg (by simpa using hn)]

theorem length_digits_le {n k : Nat} (hk : 0 < k) (h : n < Nat.pow 10 k) :
    (digits n).length ≤ k :=
  (Nat.length_toDigits_le_iff (by decide) hk).mpr h

theorem length_digits_of_withinLimit {n : Int} (h : withinLimit n = true) :
    (digits n.natAbs).length ≤ digitLimit := by
  rw [withinLimit, decide_eq_true_eq] at h
  exact length_digits_le (by decide) h

/-- The text of an integer within the limit is read as the integer. -/
theorem readInt?_intChars {n : Int} (h : withinLimit n = true) : readInt? (intChars n) = some n := by
  rw [intChars_eq_paddedChars]
  exact readInt?_paddedChars (by simpa using length_digits_of_withinLimit h)

/-! ### The limit -/

theorem lt_pow_of_lt {n k : Nat} (hk : 0 < k) (h : n < 10) : n < Nat.pow 10 k :=
  Nat.lt_of_lt_of_le h (Nat.le_self_pow (Nat.ne_of_gt hk) 10)

theorem lt_pow_of_le {n k l : Nat} (h : n < Nat.pow 10 k) (hk : k ≤ l) : n < Nat.pow 10 l :=
  Nat.lt_of_lt_of_le h (Nat.pow_le_pow_right (by decide) hk)

/-- An integer of one digit is within the limit. -/
theorem withinLimit_of_lt {n : Int} (h : n.natAbs < 10) : withinLimit n = true := by
  rw [withinLimit, decide_eq_true_eq]
  exact lt_pow_of_lt (by decide) h

/-- A row of digits denotes less than its length allows. -/
theorem foldlM_digits_lt {ds : List Char} {start n : Nat}
    (h : ds.foldlM (fun n c => (digitValue? c).map (10 * n + ·)) start = some n) :
    n < (start + 1) * Nat.pow 10 ds.length := by
  induction ds generalizing start with
  | nil =>
      obtain rfl := Option.some.inj h
      exact Nat.lt_of_lt_of_eq (Nat.lt_succ_self start) (Nat.mul_one _).symm
  | cons c ds ih =>
      rw [List.foldlM_cons] at h
      obtain ⟨next, hnext, h⟩ := Option.bind_eq_some_iff.mp h
      obtain ⟨d, hd, rfl⟩ := Option.map_eq_some_iff.mp hnext
      have hlt := digitValue?_lt hd
      calc n < (10 * start + d + 1) * Nat.pow 10 ds.length := ih h
        _ ≤ ((start + 1) * 10) * Nat.pow 10 ds.length := Nat.mul_le_mul_right _ (by omega)
        _ = (start + 1) * (Nat.pow 10 ds.length * 10) := by
          rw [Nat.mul_assoc, Nat.mul_comm 10 (Nat.pow 10 ds.length)]

/-- An integer that is read from a text can be written. -/
theorem withinLimit_of_readInt? {text : List Char} {n : Int} (h : readInt? text = some n) :
    withinLimit n = true := by
  unfold readInt? at h
  dsimp only at h
  obtain ⟨ds, -, h⟩ := Option.bind_eq_some_iff.mp h
  split at h
  · cases h
  rename_i hlength
  obtain ⟨m, hm, h⟩ := Option.bind_eq_some_iff.mp h
  have hbound : m < Nat.pow 10 ds.length := by
    unfold ofDigits? at hm
    split_ifs at hm
    exact Nat.lt_of_lt_of_eq (foldlM_digits_lt hm) (Nat.one_mul _)
  have habs : n.natAbs = m := by
    obtain rfl := Option.some.inj h
    split <;> simp
  rw [withinLimit, decide_eq_true_eq, habs]
  exact lt_pow_of_le hbound (Nat.not_lt.mp hlength)

end Numeral

theorem intText_eq_ok_iff {n : Int} : (∃ text, intText n = .ok text) ↔ Numeral.withinLimit n = true := by
  unfold intText
  split
  · rename_i h
    exact iff_of_true ⟨_, rfl⟩ h
  · rename_i h
    refine iff_of_false ?_ h
    rintro ⟨text, ⟨⟩⟩

/-- An integer beyond the limit has no decimal text. -/
theorem intText_of_not_withinLimit {n : Int} (h : Numeral.withinLimit n = false) :
    intText n = .error .digitLimit := by
  rw [intText, h]
  rfl

/-- The least natural that has more digits than the limit allows. -/
theorem Numeral.not_withinLimit_pow : withinLimit (Nat.pow 10 digitLimit : Nat) = false := by
  rw [withinLimit, decide_eq_false_iff_not, Int.natAbs_natCast]
  exact Nat.lt_irrefl _

namespace Convert

open Numeral

theorem dropFinalNewline_of_no_blank {cs : List Char} (h : ∀ c ∈ cs, Text.isBlank c = false) :
    dropFinalNewline cs = cs := by
  unfold dropFinalNewline
  rw [if_neg]
  intro hlast
  have hnewline := h '\n' (List.mem_of_getLast? (eq_of_beq hlast))
  revert hnewline
  decide

theorem isIntegerText_paddedChars (plus : Bool) (zeros : Nat) (n : Int) :
    isIntegerText (paddedChars plus zeros n) = true := by
  unfold isIntegerText
  rw [takeSign_paddedChars]
  simp only [Bool.and_eq_true, Bool.not_eq_true', List.isEmpty_eq_false_iff, List.all_eq_true]
  exact ⟨List.append_ne_nil_of_right_ne_nil _ (digits_ne_nil _), isDigits_padded zeros n.natAbs⟩

/-- The text of an integer is converted to the integer, whether or not fractions are admitted. -/
theorem number_paddedChars (integral : Bool) {plus : Bool} {zeros : Nat} {n : Int}
    (h : zeros + (digits n.natAbs).length ≤ digitLimit) :
    number integral (.str (String.ofList (paddedChars plus zeros n))) = .ok (.int n) := by
  unfold number numberOfText
  dsimp only
  rw [String.toList_ofList, dropFinalNewline_of_no_blank fun c hc => isBlank_of_mem_paddedChars hc,
    isIntegerText_paddedChars, if_pos rfl, readInt?_paddedChars h]

/-- The text that an integer is written with is converted back to the integer. -/
theorem number_of_intText {n : Int} {text : String} (h : intText n = .ok text) (integral : Bool) :
    number integral (.str text) = .ok (.int n) := by
  unfold intText at h
  split_ifs at h with hlimit
  obtain rfl := Except.ok.inj h
  rw [intChars_eq_paddedChars]
  exact number_paddedChars integral (by simpa using length_digits_of_withinLimit hlimit)

end Convert

end ApiContract
