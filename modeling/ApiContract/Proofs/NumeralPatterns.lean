import ApiContract.Proofs.NumeralText
import ApiContract.Proofs.PatternLanguage
import ApiContract.Validation.Check

/-!
# Numerals as regular expressions

Conversion tells numerals by two regular expressions. Part by part these take what the grammar of numerals
says, so they match exactly the texts that conversion reads as numbers (`search_integerPattern`,
`search_numeralPattern`). Main statement: conversion toward a number gives a result for every text, a number
that the leaf admits or the text itself, and the text of an integer becomes the integer (`number_of_text`).
-/

namespace ApiContract.Convert

open Numeral Regex ApiContract.Text

namespace NumeralPattern

/-- `[+-]?` -/
def sign : Node := .loop .greedy 0 (some 1) (.set false [.single '+'.toNat, .single '-'.toNat])

/-- `\d*`, or `\d+` with one for `least`. -/
def digits (least : Nat) : Node := .loop .greedy least none (.set false [.charClass false .digit])

def point : Node := .char false '.'.toNat

/-- `\d+\.?\d*|\.\d+` -/
def mantissa : Node :=
  .alt (.seq (digits 1) (.seq (.loop .greedy 0 (some 1) point) (digits 0))) (.seq point (digits 1))

/-- `[eE][+-]?\d+` -/
def exponent : Node :=
  .seq (.set false [.single 'e'.toNat, .single 'E'.toNat]) (.seq sign (digits 1))

end NumeralPattern

/-- `^[+-]?\d+$` -/
def integerPattern : Pattern where
  root := .seq (.anchor .lineStart) (.seq NumeralPattern.sign (.seq (NumeralPattern.digits 1) (.anchor .lineEnd)))
  flags := {}

/-- `^[+-]?(\d+\.?\d*|\.\d+)([eE][+-]?\d+)?$` -/
def numeralPattern : Pattern where
  root := .seq (.anchor .lineStart) (.seq NumeralPattern.sign (.seq (.group 1 NumeralPattern.mantissa)
    (.seq (.loop .greedy 0 (some 1) (.group 2 NumeralPattern.exponent)) (.anchor .lineEnd))))
  flags := {}

-- The patterns are what the parser reads from their texts.
example : (parse "^[+-]?\\d+$").toOption = some integerPattern := by decide +kernel

example : (parse "^[+-]?(\\d+\\.?\\d*|\\.\\d+)([eE][+-]?\\d+)?$").toOption = some numeralPattern := by
  decide +kernel

/-! ### What the parts take -/

namespace NumeralPattern

theorem takes_either (a b : Char) :
    (Node.set false [.single a.toNat, .single b.toNat]).Takes {} (texts fun t => t = [a] ∨ t = [b]) := by
  have hcode (c x : Char) : (c.toNat == x.toNat) = (c == x) := by
    rw [Bool.eq_iff_iff, beq_iff_eq, beq_iff_eq, Char.toNat_inj]
  refine (takes_set false _).of_iff fun t => ?_
  simp only [single, SetItem.holds, variants]
  simp [hcode]

theorem takes_point : point.Takes {} (texts fun t => t = ['.']) := by
  refine (takes_char false '.'.toNat).of_iff fun t => ?_
  simp [single, isCode, sameChar]

theorem takes_end : (Node.anchor .lineEnd).Takes {} atEnd := takes_lineEnd rfl

theorem takes_sign : sign.Takes {} (texts IsSign) :=
  takes_optional (takes_either '+' '-') (by rintro _ (rfl | rfl) <;> simp)

theorem takes_digits (least : Nat) :
    (digits least).Takes {} (texts fun t => IsDigits t ∧ least ≤ t.length) := by
  refine takes_row ((takes_set false _).of_iff fun t => ?_) least
  simp [single, SetItem.holds, CharClass.holds]

/-- `IntegerForm` in two parts. -/
theorem integerForm_iff {cs : List Char} :
    IntegerForm cs ↔ ∃ s ds, IsSign s ∧ (IsDigits ds ∧ 1 ≤ ds.length) ∧ cs = s ++ ds := by
  constructor
  · rintro ⟨hsign, hdigits, hne⟩
    exact ⟨_, _, hsign, ⟨hdigits, List.length_pos_iff.mpr hne⟩, rfl⟩
  · rintro ⟨s, ds, hsign, ⟨hdigits, hlength⟩, rfl⟩
    exact .intro hsign hdigits (List.length_pos_iff.mp hlength)

theorem takes_exponent : (Node.loop .greedy 0 (some 1) (.group 2 exponent)).Takes {} (texts ExponentForm) := by
  have hinteger := takes_seq_texts takes_sign (takes_digits 1)
  simp only [← integerForm_iff] at hinteger
  have hexponent := takes_group 2 (takes_seq_texts (takes_either 'e' 'E') hinteger)
  refine (takes_optional hexponent (by rintro _ ⟨_, _, rfl | rfl, -, rfl⟩ <;> simp)).of_iff fun t => ?_
  constructor
  · rintro (rfl | ⟨_, cs, rfl | rfl, hcs, rfl⟩)
    · exact .none
    · exact .some (.inl rfl) hcs
    · exact .some (.inr rfl) hcs
  · rintro (_ | ⟨rfl | rfl, hcs⟩)
    · exact .inl rfl
    · exact .inr ⟨['e'], _, .inl rfl, hcs, rfl⟩
    · exact .inr ⟨['E'], _, .inr rfl, hcs, rfl⟩

/-- `MantissaForm` by what comes first: digits with or without a point behind them, or the point. -/
theorem mantissaForm_iff {cs : List Char} :
    MantissaForm cs ↔
      (∃ ds r, (IsDigits ds ∧ 1 ≤ ds.length) ∧
        (∃ p fs, (p = [] ∨ p = ['.']) ∧ (IsDigits fs ∧ 0 ≤ fs.length) ∧ r = p ++ fs) ∧ cs = ds ++ r) ∨
      ∃ p fs, p = ['.'] ∧ (IsDigits fs ∧ 1 ≤ fs.length) ∧ cs = p ++ fs := by
  constructor
  · intro h
    cases h with
    | whole hds hne =>
        exact .inl ⟨cs, [], ⟨hds, List.length_pos_iff.mpr hne⟩,
          ⟨[], [], .inl rfl, ⟨isDigits_nil, Nat.zero_le _⟩, rfl⟩, (List.append_nil cs).symm⟩
    | @pointed ds fs hds hfs hne =>
        by_cases hempty : ds = []
        · obtain rfl := hempty
          have hfraction : fs ≠ [] := hne.resolve_left fun h => h rfl
          exact .inr ⟨['.'], fs, rfl, ⟨hfs, List.length_pos_iff.mpr hfraction⟩, rfl⟩
        · exact .inl ⟨ds, '.' :: fs, ⟨hds, List.length_pos_iff.mpr hempty⟩,
            ⟨['.'], fs, .inr rfl, ⟨hfs, Nat.zero_le _⟩, rfl⟩, rfl⟩
  · rintro (⟨ds, _, ⟨hds, hlength⟩, ⟨_, fs, rfl | rfl, ⟨hfs, -⟩, rfl⟩, rfl⟩ | ⟨_, fs, rfl, ⟨hfs, hlength⟩, rfl⟩)
    · -- without a point, the digits of both loops are one row
      exact .whole (hds.append hfs) (List.append_ne_nil_of_left_ne_nil (List.length_pos_iff.mp hlength) _)
    · exact .pointed hds hfs (.inl (List.length_pos_iff.mp hlength))
    · exact .pointed isDigits_nil hfs (.inr (List.length_pos_iff.mp hlength))

theorem takes_mantissa : mantissa.Takes {} (texts MantissaForm) := by
  have hpoint := takes_optional takes_point (by rintro _ rfl; simp)
  have hwhole := takes_seq_texts (takes_digits 1) (takes_seq_texts hpoint (takes_digits 0))
  have hfraction := takes_seq_texts takes_point (takes_digits 1)
  exact (takes_alt_texts hwhole hfraction).of_iff fun t => mantissaForm_iff.symm

/-- `NumeralForm` in three parts. -/
theorem numeralForm_iff {cs : List Char} :
    NumeralForm cs ↔ ∃ r es, (∃ s ms, IsSign s ∧ MantissaForm ms ∧ r = s ++ ms) ∧ ExponentForm es ∧
      cs = r ++ es := by
  constructor
  · rintro ⟨hsign, hmantissa, hexponent⟩
    exact ⟨_, _, ⟨_, _, hsign, hmantissa, rfl⟩, hexponent, (List.append_assoc _ _ _).symm⟩
  · rintro ⟨_, es, ⟨s, ms, hsign, hmantissa, rfl⟩, hexponent, rfl⟩
    rw [List.append_assoc]
    exact .intro hsign hmantissa hexponent

end NumeralPattern

/-! ### What the patterns match -/

/-- With or without a line feed behind it, a text without blanks is told by what is left when the line feed
is dropped. -/
theorem exists_dropFinalNewline {P : List Char → Prop} (hP : ∀ t, P t → ∀ c ∈ t, isBlank c = false)
    {cs : List Char} : (∃ t, P t ∧ (cs = t ∨ cs = t ++ ['\n'])) ↔ P (dropFinalNewline cs) := by
  constructor
  · rintro ⟨t, ht, rfl | rfl⟩
    · rwa [dropFinalNewline_of_no_blank (hP cs ht)]
    · unfold dropFinalNewline
      rw [if_pos (by simp), List.dropLast_concat]
      exact ht
  · intro h
    refine ⟨_, h, ?_⟩
    unfold dropFinalNewline
    split_ifs with hlast
    · exact .inr (List.dropLast_append_getLast? '\n' (by simpa using hlast)).symm
    · exact .inl rfl

theorem search_integerPattern (s : String) :
    integerPattern.search s = isIntegerText (dropFinalNewline s.toList) := by
  have hbody := takes_seq NumeralPattern.takes_sign (takes_seq (NumeralPattern.takes_digits 1)
    NumeralPattern.takes_end)
  rw [followed_assoc, followed_texts] at hbody
  simp only [← NumeralPattern.integerForm_iff] at hbody
  rw [Bool.eq_iff_iff, isIntegerText_iff]
  exact (search_bound rfl hbody s).trans (exists_dropFinalNewline fun t ht c hc => ht.isBlank_of_mem hc)

theorem search_numeralPattern (s : String) :
    numeralPattern.search s = isNumeralText (dropFinalNewline s.toList) := by
  have hbody := takes_seq NumeralPattern.takes_sign (takes_seq (takes_group 1 NumeralPattern.takes_mantissa)
    (takes_seq NumeralPattern.takes_exponent NumeralPattern.takes_end))
  rw [followed_assoc, followed_assoc, followed_texts, followed_texts] at hbody
  simp only [← NumeralPattern.numeralForm_iff] at hbody
  rw [Bool.eq_iff_iff, isNumeralText_iff]
  exact (search_bound rfl hbody s).trans (exists_dropFinalNewline fun t ht c hc => ht.isBlank_of_mem hc)

/-! ### Conversion -/

/-- Conversion toward a number gives a result for every text: the text itself or, if one of the patterns
matches the text, a number of the type that the leaf asks for. The text of an integer becomes the integer,
whatever zeros stand before its digits, up to the limit of digits. -/
theorem number_of_text (integral : Bool) :
    (∀ s, ∃ v, number integral (.str s) = .ok v ∧
      (v = .str s ∨ (integerPattern.search s || numeralPattern.search s) = true ∧
        Validator.isNumeric integral v = true)) ∧
      ∀ (n : Int) (plus : Bool) (zeros : Nat), zeros + (Numeral.digits n.natAbs).length ≤ digitLimit →
        number integral (.str (String.ofList (paddedChars plus zeros n))) = .ok (.int n) := by
  refine ⟨fun s => ?_, fun n plus zeros hlength => number_paddedChars integral hlength⟩
  obtain ⟨v, hv⟩ := exists_number integral (.str s)
  refine ⟨v, hv, ?_⟩
  rw [search_integerPattern, search_numeralPattern, Bool.or_eq_true]
  rcases numberOfText_cases hv with hkept | ⟨hinteger, n, -, rfl⟩ | ⟨hnumeral, x, -, rfl⟩
  · exact .inl hkept
  · exact .inr ⟨.inl hinteger, rfl⟩
  · rcases admitted_cases integral s x with hkept | ⟨n, -, hint⟩ | ⟨hintegral, hfinite, hfloat⟩
    · exact .inl hkept
    · exact .inr ⟨.inr hnumeral, by rw [hint]; rfl⟩
    · refine .inr ⟨.inr hnumeral, ?_⟩
      rw [hfloat, Validator.isNumeric, hintegral, hfinite]
      rfl

/-- An integer with a plus and two zeros. -/
theorem number_of_text_padded :
    2 + (Numeral.digits 12).length ≤ digitLimit ∧ number true (.str "+0012") = .ok (.int 12) :=
  ⟨by decide, (number_of_text true).2 12 true 2 (by decide)⟩

end ApiContract.Convert
