import ApiContract.Json.Writer
import ApiContract.Proofs.IntegerText

/-!
# Text that shows where it ends

In a JSON text one piece stands right behind the other, and still each piece can be told from what follows
it: the escape of a character (`escapeChar_append_inj`), a string (`stringText_append_inj`), and an integer
behind which no digit stands (`intChars_append_inj`).
-/

namespace ApiContract

/-! ### Hexadecimal digits -/

namespace Numeral

theorem baseDigit?_digitChar {d : Nat} (h : d < 16) : baseDigit? d.digitChar = some d := by
  have hall : ∀ e ∈ List.range 16, baseDigit? (Nat.digitChar e) = some e := by decide
  exact hall d (List.mem_range.mpr h)

theorem foldlM_hexDigits (n : Nat) :
    (Nat.toDigits 16 n).foldlM
      (fun n c => (baseDigit? c).bind fun d => if d < 16 then some (16 * n + d) else none) 0 = some n := by
  induction n using Nat.strongRecOn with
  | ind n ih =>
      -- the last digit stands behind the digits of `n / 16`, which are read first
      by_cases h : n < 16
      · simp [Nat.toDigits_of_lt_base h, baseDigit?_digitChar h, h]
      · have hdigit : n % 16 < 16 := Nat.mod_lt n (by decide)
        rw [Nat.toDigits_of_base_le (by decide) (by omega), List.foldlM_append, ih (n / 16) (by omega)]
        simp [baseDigit?_digitChar hdigit, hdigit]
        omega

/-- Reading the padded hexadecimal digits of a natural gives the natural. -/
theorem ofBaseDigits?_hexDigits (width n : Nat) : ofBaseDigits? 16 (Text.hexDigits width n) = some n := by
  have hzeros (k : Nat) : (List.replicate k '0').foldlM
      (fun n c => (baseDigit? c).bind fun d => if d < 16 then some (16 * n + d) else none) 0 = some 0 := by
    -- a leading zero leaves the number read so far at zero
    induction k with
    | zero => rfl
    | succ k ih => exact ih
  have hne : Text.hexDigits width n ≠ [] :=
    List.append_ne_nil_of_right_ne_nil _ Nat.toDigits_ne_nil
  rw [ofBaseDigits?, if_neg (by simpa using hne), Text.hexDigits, List.foldlM_append, hzeros]
  exact foldlM_hexDigits n

end Numeral

theorem Text.length_hexDigits {width n : Nat} (hwidth : 0 < width) (h : n < Nat.pow 16 width) :
    (hexDigits width n).length = width := by
  have hlength := (Nat.length_toDigits_le_iff (by decide) hwidth).mpr h
  rw [hexDigits, List.length_append, List.length_replicate]
  omega

namespace Json

/-! ### Escapes -/

theorem unitEscape_append_inj {u v : Nat} {r r' : List Char} (hu : u < 0x10000) (hv : v < 0x10000)
    (h : unitEscape u ++ r = unitEscape v ++ r') : u = v ∧ r = r' := by
  have hlength {n : Nat} (hn : n < 0x10000) : (Text.hexDigits 4 n).length = 4 :=
    Text.length_hexDigits (by decide) hn
  simp only [unitEscape, List.cons_append, List.cons.injEq, true_and] at h
  obtain ⟨hdigits, hrest⟩ := List.append_inj h ((hlength hu).trans (hlength hv).symm)
  -- reading the digits back shows that the numbers are the same
  have hread := congrArg (Numeral.ofBaseDigits? 16) hdigits
  rw [Numeral.ofBaseDigits?_hexDigits, Numeral.ofBaseDigits?_hexDigits] at hread
  exact ⟨Option.some.inj hread, hrest⟩

/-- The characters with an escape of two characters, and the second of these. -/
def marks : List (Char × Char) :=
  [('"', '"'), ('\\', '\\'), ('\n', 'n'), ('\r', 'r'), ('\t', 't'), ('\x08', 'b'), ('\x0c', 'f')]

/-- The four forms in which a character stands in an ASCII string. -/
inductive EscapedAs (c : Char) : List Char → Prop where
  | plain : c ≠ '"' → c ≠ '\\' → EscapedAs c [c]
  | mark {m : Char} : (c, m) ∈ marks → EscapedAs c ['\\', m]
  | unit : c.toNat < 0x10000 → EscapedAs c (unitEscape c.toNat)
  /-- A character beyond the first plane is a pair of surrogates. -/
  | pair {n : Nat} : c.toNat = n + 0x10000 →
      EscapedAs c (unitEscape (0xd800 + n / 1024) ++ unitEscape (0xdc00 + n % 1024))

theorem escapedAs_mark {c d m : Char} (h : (c == d) = true) (hm : (d, m) ∈ marks) :
    EscapedAs c ['\\', m] := by
  rw [← eq_of_beq h] at hm
  exact .mark hm

theorem escapedAs_escapeChar (c : Char) : EscapedAs c (escapeChar true c) := by
  unfold escapeChar
  split_ifs with hquote hn hr ht hb hf hcontrol hascii hplane
  · -- the quote and the backslash are their own second characters
    rcases Bool.or_eq_true_iff.mp hquote with h | h
    · rw [eq_of_beq h]
      exact .mark (by decide)
    · rw [eq_of_beq h]
      exact .mark (by decide)
  · exact escapedAs_mark hn (by decide)
  · exact escapedAs_mark hr (by decide)
  · exact escapedAs_mark ht (by decide)
  · exact escapedAs_mark hb (by decide)
  · exact escapedAs_mark hf (by decide)
  · exact .unit (by omega)
  · exact .unit hplane
  · exact .pair (by omega)
  · simp only [Bool.or_eq_true, beq_iff_eq, not_or] at hquote
    exact .plain hquote.1 hquote.2

/-- No code point is a surrogate. -/
theorem not_surrogate (c : Char) : c.toNat < 0xd800 ∨ 0xdfff < c.toNat := by
  rcases c.valid with h | h
  · exact .inl h
  · exact .inr h.1

theorem toNat_lt (c : Char) : c.toNat < 0x110000 := by
  rcases c.valid with h | h
  · exact Nat.lt_trans h (by decide)
  · exact h.2

namespace EscapedAs

/-- An escape never begins with the quote that ends a string. -/
theorem head_ne_quote {c : Char} {b r : List Char} (h : EscapedAs c b) : (b ++ r).head? ≠ some '"' := by
  cases h with
  | plain hquote hslash => simpa using hquote
  | mark hm => simp
  | unit hn => simp [unitEscape]
  | pair hn => simp [unitEscape]

/-- An escape is recognized in front of whatever follows it. -/
theorem append_inj {c d : Char} {b b' r r' : List Char} (hc : EscapedAs c b) (hd : EscapedAs d b')
    (h : b ++ r = b' ++ r') : c = d ∧ r = r' := by
  have hmark : ∀ p ∈ marks, p.2 ≠ 'u' := by decide
  have hmarks : ∀ p ∈ marks, ∀ q ∈ marks, p.2 = q.2 → p.1 = q.1 := by decide
  have hcode := not_surrogate c
  have hcode' := not_surrogate d
  have hlt := toNat_lt c
  have hlt' := toNat_lt d
  cases hc with
  | plain hquote hslash =>
      cases hd with
      | plain hquote' hslash' => simpa using h
      | mark hm => exact absurd (List.cons.inj h).1 hslash
      | unit hn => exact absurd (List.cons.inj h).1 hslash
      | pair hn => exact absurd (List.cons.inj h).1 hslash
  | mark hm =>
      cases hd with
      | plain hquote' hslash' => exact absurd (List.cons.inj h).1.symm hslash'
      | mark hm' =>
          simp only [List.cons_append, List.nil_append, List.cons.injEq, true_and] at h
          exact ⟨hmarks _ hm _ hm' h.1, h.2⟩
      | unit hn => exact absurd (List.cons.inj (List.cons.inj h).2).1 (hmark _ hm)
      | pair hn => exact absurd (List.cons.inj (List.cons.inj h).2).1 (hmark _ hm)
  | unit hn =>
      cases hd with
      | plain hquote' hslash' => exact absurd (List.cons.inj h).1.symm hslash'
      | mark hm => exact absurd (List.cons.inj (List.cons.inj h).2).1.symm (hmark _ hm)
      | unit hn' =>
          obtain ⟨hcodes, hrest⟩ := unitEscape_append_inj hn hn' h
          exact ⟨Char.toNat_inj.mp hcodes, hrest⟩
      | pair hn' =>
          -- the first half of a pair is a surrogate, and no character is
          rw [List.append_assoc] at h
          have hfirst := (unitEscape_append_inj hn (by omega) h).1
          omega
  | pair hn =>
      cases hd with
      | plain hquote' hslash' => exact absurd (List.cons.inj h).1.symm hslash'
      | mark hm => exact absurd (List.cons.inj (List.cons.inj h).2).1.symm (hmark _ hm)
      | unit hn' =>
          rw [List.append_assoc] at h
          have hfirst := (unitEscape_append_inj (by omega) hn' h).1
          omega
      | pair hn' =>
          rw [List.append_assoc, List.append_assoc] at h
          obtain ⟨hfirst, h⟩ := unitEscape_append_inj (by omega) (by omega) h
          obtain ⟨hsecond, hrest⟩ := unitEscape_append_inj (by omega) (by omega) h
          exact ⟨Char.toNat_inj.mp (by omega), hrest⟩

end EscapedAs

/-! ### Strings and integers -/

theorem escapes_append_inj {cs ds r r' : List Char}
    (h : cs.flatMap (escapeChar true) ++ '"' :: r = ds.flatMap (escapeChar true) ++ '"' :: r') :
    cs = ds ∧ r = r' := by
  -- by induction on the characters; where one row ends, the other one cannot go on with a quote
  induction cs generalizing ds with
  | nil =>
      cases ds with
      | nil => exact ⟨rfl, (List.cons.inj h).2⟩
      | cons d ds =>
          rw [List.flatMap_cons, List.append_assoc] at h
          exact absurd (congrArg List.head? h).symm (escapedAs_escapeChar d).head_ne_quote
  | cons c cs ih =>
      cases ds with
      | nil =>
          rw [List.flatMap_cons, List.append_assoc] at h
          exact absurd (congrArg List.head? h) (escapedAs_escapeChar c).head_ne_quote
      | cons d ds =>
          rw [List.flatMap_cons, List.flatMap_cons, List.append_assoc, List.append_assoc] at h
          obtain ⟨rfl, htail⟩ := (escapedAs_escapeChar c).append_inj (escapedAs_escapeChar d) h
          obtain ⟨rfl, hrest⟩ := ih htail
          exact ⟨rfl, hrest⟩

/-- A string is recognized in front of whatever follows it. -/
theorem stringText_append_inj {s t : String} {r r' : List Char}
    (h : (stringText true s).toList ++ r = (stringText true t).toList ++ r') : s = t ∧ r = r' := by
  simp only [stringText, String.toList_ofList, List.cons_append, List.append_assoc, List.cons.injEq,
    true_and, List.nil_append] at h
  obtain ⟨hchars, hrest⟩ := escapes_append_inj h
  exact ⟨String.toList_inj.mp hchars, hrest⟩

/-- No digit, and no sign, stands at the beginning of a text. -/
def Delimited (r : List Char) : Prop := ∀ c ∈ r.head?, c ≠ '-' ∧ Text.isDecimalDigit c = false

/-- An integer is recognized in front of what is no digit. -/
theorem intChars_append_inj {m n : Int} {r r' : List Char} (hm : Numeral.withinLimit m = true)
    (hn : Numeral.withinLimit n = true) (hr : Delimited r) (hr' : Delimited r')
    (h : Numeral.intChars m ++ r = Numeral.intChars n ++ r') : m = n ∧ r = r' := by
  -- the text of the integer is the longest row of digits and signs
  have htake (k : Int) {s : List Char} (hs : Delimited s) :
      (Numeral.intChars k ++ s).takeWhile (fun c => c == '-' || Text.isDecimalDigit c) =
        Numeral.intChars k := by
    rw [List.takeWhile_append_of_pos]
    · cases s with
      | nil => simp
      | cons c s =>
          obtain ⟨hminus, hdigit⟩ := hs c rfl
          simp [hminus, hdigit]
    · intro c hc
      rcases Numeral.mem_intChars hc with rfl | hc
      · rfl
      · simp [hc]
  have hchars : Numeral.intChars m = Numeral.intChars n := by
    rw [← htake m hr, h, htake n hr']
  have hread := congrArg Numeral.readInt? hchars
  rw [Numeral.readInt?_intChars hm, Numeral.readInt?_intChars hn] at hread
  rw [hchars] at h
  exact ⟨Option.some.inj hread, List.append_cancel_left h⟩

end Json

end ApiContract
