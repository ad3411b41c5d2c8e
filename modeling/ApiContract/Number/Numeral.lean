import ApiContract.Text.DecimalDigit
import ApiContract.Text.WordCharacter
import ApiContract.Number.Binary64

/-!
# Decimal numerals

Reading numbers from decimal text, with the digits of any script. An integer numeral has at most
`digitLimit` digits; a longer one is refused, both when it is read and when it is written.
Main statement: reading the digits that writing produces gives the number back (`ofDigits?_digits`).
-/

namespace ApiContract.Numeral

open ApiContract.Text

/-- The most digits of an integer that is read from or written as decimal text. -/
def digitLimit : Nat := 4300

/-- The value of a row of decimal digits; `none` if it is empty or holds another character. -/
def ofDigits? (cs : List Char) : Option Nat :=
  if cs.isEmpty then none
  else cs.foldlM (fun n c => (digitValue? c).map (10 * n + ·)) 0

/-- The decimal digits of a natural, most significant first. -/
def digits (n : Nat) : List Char := Nat.toDigits 10 n

/-- Whether the decimal text of an integer stays within the limit. -/
def withinLimit (n : Int) : Bool := n.natAbs < Nat.pow 10 digitLimit

/-- An integer's decimal text, without regard to the limit. -/
def intChars (n : Int) : List Char :=
  if n < 0 then '-' :: digits n.natAbs else digits n.natAbs

theorem digitValue?_digitChar {d : Nat} (h : d < 10) : digitValue? d.digitChar = some d := by
  have all : ∀ e ∈ List.range 10, digitValue? (Nat.digitChar e) = some e := by decide
  exact all d (List.mem_range.mpr h)

private theorem foldlM_digits (n : Nat) :
    (digits n).foldlM (fun n c => (digitValue? c).map (10 * n + ·)) 0 = some n := by
  induction n using Nat.strongRecOn with
  | ind n ih =>
    unfold digits at ih ⊢
    by_cases h : n < 10
    · simp [Nat.toDigits_of_lt_base h, digitValue?_digitChar h]
    · rw [Nat.toDigits_of_base_le (by decide) (by omega), List.foldlM_append, ih (n / 10) (by omega)]
      simp [digitValue?_digitChar (Nat.mod_lt n (by decide : 0 < 10))]
      omega

/-- Reading the digits of a natural gives the natural. -/
theorem ofDigits?_digits (n : Nat) : ofDigits? (digits n) = some n := by
  have h : digits n ≠ [] := Nat.toDigits_ne_nil
  simp [ofDigits?, h, foldlM_digits]

/-- A sign, if the text starts with one: whether it is a minus, and the rest. -/
def takeSign : List Char → Bool × List Char
  | '+' :: cs => (false, cs)
  | '-' :: cs => (true, cs)
  | cs => (false, cs)

/-- Digits with single underscores between them: the digits alone, or `none` for an underscore that
does not stand between two digits. -/
def dropUnderscores : List Char → Option (List Char)
  | [] => some []
  | '_' :: _ => none
  | c :: '_' :: d :: cs => (dropUnderscores (d :: cs)).map (c :: ·)
  | [_, '_'] => none
  | c :: cs => (dropUnderscores cs).map (c :: ·)

/-- An integer numeral: blanks at the ends, a sign, digits with single underscores between them. -/
def readInt? (text : List Char) : Option Int := do
  let (negative, body) := takeSign (trimBlanks text)
  let ds ← dropUnderscores body
  if digitLimit < ds.length then none
  let n ← ofDigits? ds
  return if negative then -(n : Int) else n

/-- The parts of a decimal numeral with an optional fraction and exponent. -/
structure Parts where
  negative : Bool
  whole : List Char
  fraction : List Char
  exponent : Int

/-- The digits at the start of a text, those behind a point that follows them, and what is left. -/
def takeMantissa (text : List Char) : List Char × List Char × List Char :=
  let whole := text.takeWhile isDecimalDigit
  match text.dropWhile isDecimalDigit with
  | '.' :: r => (whole, r.takeWhile isDecimalDigit, r.dropWhile isDecimalDigit)
  | r => (whole, [], r)

/-- The exponent of a numeral: its letter and an integer without underscores; nothing stands for zero. -/
def readExponent? : List Char → Option Int
  | [] => some 0
  | e :: r =>
    if e == 'e' || e == 'E' then
      let (below, ds) := takeSign r
      (ofDigits? ds).map fun (n : Nat) => if below then -(n : Int) else n
    else none

/-- Sign, digits, an optional point with digits and an optional exponent; at least one digit before
the exponent. -/
def readParts? (text : List Char) : Option Parts :=
  let (negative, body) := takeSign text
  let (whole, fraction, rest) := takeMantissa body
  if whole.isEmpty && fraction.isEmpty then none
  else (readExponent? rest).map fun exponent => ⟨negative, whole, fraction, exponent⟩

/-- The number that a decimal numeral denotes, rounded to nearest. A numeral of several hundred
places more than any finite number has is decided by its length alone. -/
def Parts.toBinary64 (p : Parts) : Binary64 :=
  let ds := p.whole ++ p.fraction
  let n := (ofDigits? ds).getD 0
  let e := p.exponent - p.fraction.length
  if n = 0 then .zero p.negative
  else
    let size : Int := (Nat.log2 n : Int) * 30103 / 100000 + e
    if 400 < size then .infinite p.negative
    else if size < -400 then .zero p.negative
    else if 0 ≤ e then .ofRatio p.negative (n * Nat.pow 10 e.toNat) 1
    else .ofRatio p.negative n (Nat.pow 10 (-e).toNat)

/-- A floating-point numeral without blanks around it. -/
def readFloat? (text : List Char) : Option Binary64 := (readParts? text).map Parts.toBinary64

/-- The value of a letter or digit as a digit of a base of at most 36. -/
def baseDigit? (c : Char) : Option Nat :=
  match digitValue? c with
  | some d => some d
  | none =>
    if 'a' ≤ c ∧ c ≤ 'z' then some (c.toNat - 'a'.toNat + 10)
    else if 'A' ≤ c ∧ c ≤ 'Z' then some (c.toNat - 'A'.toNat + 10)
    else none

/-- The value of a row of digits of a base; `none` if it is empty or holds a digit of no such
base. -/
def ofBaseDigits? (base : Nat) (cs : List Char) : Option Nat :=
  if cs.isEmpty then none
  else cs.foldlM
    (fun n c => (baseDigit? c).bind fun d => if d < base then some (base * n + d) else none) 0

/-- A hexadecimal integer numeral: blanks at the ends, a sign, the mark `0x` with an underscore after
it allowed, and digits with single underscores between them. -/
def readHex? (text : List Char) : Option Int := do
  let (negative, body) := takeSign (trimBlanks text)
  let body := match body with
    | '0' :: x :: '_' :: rest => if x == 'x' || x == 'X' then rest else body
    | '0' :: x :: rest => if x == 'x' || x == 'X' then rest else body
    | _ => body
  let ds ← dropUnderscores body
  let n ← ofBaseDigits? 16 ds
  return if negative then -(n : Int) else n

example : readInt? " +1_0 ".toList = some 10 := by decide +kernel
example : readInt? "1__0".toList = none := by decide +kernel
example : readInt? "٣".toList = some 3 := by decide +kernel
example : readFloat? "1e400".toList = some (.infinite false) := by decide +kernel
example : readFloat? ".5".toList = some (.ofRatio false 1 2) := by decide +kernel
example : readHex? "0x_fF".toList = some 255 := by decide +kernel

end ApiContract.Numeral
