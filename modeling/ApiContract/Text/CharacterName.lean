import ApiContract.Number.Numeral
import ApiContract.Text.NameTable

/-!
# Names of characters

The character that a name stands for. Names of syllables and of unified ideographs are made by a rule, and are
written in capitals; all other names are in a table, in which case does not count. A name that stands for a
sequence of several characters names none.

Main definition: `characterNamed?`.
-/

namespace ApiContract.Text

/-! ### Names made by a rule -/

/-- The sounds that a syllable can begin with, in the order of the syllables. -/
def syllableInitials : List String :=
  ["G", "GG", "N", "D", "DD", "R", "M", "B", "BB", "S", "SS", "", "J", "JJ", "C", "K", "T", "P", "H"]

def syllableVowels : List String :=
  ["A", "AE", "YA", "YAE", "EO", "E", "YEO", "YE", "O", "WA", "WAE", "OE", "YO", "U", "WEO", "WE", "WI", "YU",
    "EU", "YI", "I"]

/-- The sounds that a syllable can end with, of which the first is none. -/
def syllableFinals : List String :=
  ["", "G", "GG", "GS", "N", "NJ", "NH", "D", "L", "LG", "LM", "LB", "LS", "LT", "LP", "LH", "M", "B", "BS", "S",
    "SS", "NG", "J", "C", "K", "T", "P", "H"]

/-- The syllables in the order of their code points. -/
def syllables : List String :=
  syllableInitials.flatMap fun i => syllableVowels.flatMap fun v => syllableFinals.map fun f => i ++ v ++ f

/-- What follows a beginning of a text. -/
def dropBeginning? (beginning cs : List Char) : Option (List Char) :=
  if beginning.isPrefixOf cs then some (cs.drop beginning.length) else none

/-- The syllable with a name. -/
def syllableNamed? (name : List Char) : Option Nat := do
  let syllable ← dropBeginning? "HANGUL SYLLABLE ".toList name
  return 0xac00 + (← syllables.idxOf? (String.ofList syllable))

/-- First and last code points of the unified ideographs (Unicode 14). -/
def ideographRanges : List (Nat × Nat) :=
  [(0x3400, 0x4dbf), (0x4e00, 0x9fff), (0x20000, 0x2a6df), (0x2a700, 0x2b738), (0x2b740, 0x2b81d),
    (0x2b820, 0x2cea1), (0x2ceb0, 0x2ebe0), (0x30000, 0x3134a)]

/-- One of the digits 0 to 9 or A to F. -/
def isCapitalHexDigit (c : Char) : Bool :=
  ('0' ≤ c && c ≤ '9') || ('A' ≤ c && c ≤ 'F')

/-- The unified ideograph with a name, which ends with four or five hexadecimal digits of its code point. -/
def ideographNamed? (name : List Char) : Option Nat := do
  let digits ← dropBeginning? "CJK UNIFIED IDEOGRAPH-".toList name
  guard (digits.length == 4 || digits.length == 5)
  guard (digits.all isCapitalHexDigit)
  let code ← Numeral.ofBaseDigits? 16 digits
  guard (ideographRanges.any fun r => r.1 ≤ code && code ≤ r.2)
  return code

/-! ### Names in a table -/

/-- Characters with consecutive code points whose names begin alike: the first code point, the common beginning,
and the ending of each name. -/
structure NameRun where
  first : Nat
  beginning : List Char
  endings : List (List Char)

namespace NameRun

/-- A row of a table. -/
def ofRow? (row : List Char) : Option NameRun :=
  match row.splitOn '|' with
  | first :: beginning :: endings => do
    return { first := ← Numeral.ofBaseDigits? 16 first, beginning, endings }
  | _ => none

/-- The character of a run that has a name. -/
def named? (run : NameRun) (name : List Char) : Option Nat := do
  let ending ← dropBeginning? run.beginning name
  return run.first + (← run.endings.idxOf? ending)

end NameRun

/-- The runs of a table. -/
def nameRuns (table : String) : List NameRun :=
  ((table.toList.filter (· != '\n')).splitOn ';').filterMap NameRun.ofRow?

/-- The character that a table has a name for, in capitals or not. -/
def listedUnder? (table name : String) : Option Nat :=
  (nameRuns table).findSome? fun run => run.named? (name.toList.map Char.toUpper)

/-- The code point of the character with a name. -/
def characterNamed? (name : String) : Option Nat :=
  syllableNamed? name.toList <|> ideographNamed? name.toList <|>
    listedUnder? nameTable name <|> listedUnder? aliasTable name

example : characterNamed? "HANGUL SYLLABLE GAG" = some 0xac01 := by decide +kernel
example : characterNamed? "CJK UNIFIED IDEOGRAPH-4E00" = some 0x4e00 := by decide +kernel

end ApiContract.Text
