import ApiContract.Number.Reading
import ApiContract.Regex.Matcher
import ApiContract.Value.Display

/-!
# What scalars stand for

A plain scalar without a tag has the tag whose form its text has: truth values, numbers in several
bases and in base sixty, null, dates and times; any other is a text. A tag says which value a text
stands for.
-/

namespace ApiContract.Yaml

inductive Tag where
  | null
  | bool
  | int
  | float
  | binary
  | timestamp
  | orderedMap
  | pairs
  | set
  | str
  | seq
  | map
  | merge
  | value
  | other (uri : String)
  deriving DecidableEq

namespace Tag

def commonPrefix : String := "tag:yaml.org,2002:"

/-- The tag of a full name. -/
def ofUri (uri : String) : Tag :=
  let names := [("null", null), ("bool", bool), ("int", int), ("float", float), ("binary", binary),
    ("timestamp", timestamp), ("omap", orderedMap), ("pairs", pairs), ("set", set), ("str", str),
    ("seq", seq), ("map", map), ("merge", merge), ("value", value)]
  ((names.map fun n => (commonPrefix ++ n.1, n.2)).lookup uri).getD (other uri)

end Tag

namespace Scalar

/-! ### Times -/

/-- A date as it is written, with a clock time and an offset in seconds if they are there. -/
structure Timestamp where
  year : Nat
  month : Nat
  day : Nat
  clock : Option (Nat × Nat × Nat × Nat) := none
  offset : Option Int := none

private def number (ds : List Char) : Nat := (Numeral.ofDigits? ds).getD 0

/-- The number of at least `least` and at most `most` digits, and what is left. -/
private def takeDigits (least most : Nat) (cs : List Char) : Option (Nat × List Char) :=
  let ds := (cs.take most).takeWhile Char.isDigit
  if ds.length < least then none else some (number ds, cs.drop ds.length)

private def takeChar (c : Char) : List Char → Option (List Char)
  | x :: cs => if x == c then some cs else none
  | [] => none

private def isSpace (c : Char) : Bool := c == ' ' || c == '\t'

/-- The digits of a fraction as microseconds. -/
private def microseconds (ds : List Char) : Nat :=
  let ds := ds.take 6
  number (ds ++ List.replicate (6 - ds.length) '0')

private def readOffset? (cs : List Char) : Option (Option Int) :=
  match cs.dropWhile isSpace with
  | [] => if cs.isEmpty then some none else none
  | ['Z'] => some (some 0)
  | c :: rest => do
    if c != '+' && c != '-' then none
    let (hours, rest) ← takeDigits 1 2 rest
    let minutes ← match rest with
      | [] => some 0
      | rest => do
        let (m, rest) ← takeDigits 2 2 (← takeChar ':' rest)
        if rest.isEmpty then some m else none
    let seconds : Int := (hours * 60 + minutes) * 60
    return some (if c == '-' then -seconds else seconds)

/-- A date with a clock time and an offset, if the text has the form of one. -/
def readTimestamp? (s : String) : Option Timestamp := do
  let (year, cs) ← takeDigits 4 4 s.toList
  let (month, cs) ← takeDigits 1 2 (← takeChar '-' cs)
  let (day, cs) ← takeDigits 1 2 (← takeChar '-' cs)
  match cs with
  | [] => return { year, month, day }
  | c :: rest =>
    let cs := if c == 'T' || c == 't' then rest else (c :: rest).dropWhile isSpace
    if cs.length = rest.length + 1 then none
    let (hour, cs) ← takeDigits 1 2 cs
    let (minute, cs) ← takeDigits 2 2 (← takeChar ':' cs)
    let (second, cs) ← takeDigits 2 2 (← takeChar ':' cs)
    let (micro, cs) := match cs with
      | '.' :: rest => (microseconds (rest.takeWhile Char.isDigit), rest.dropWhile Char.isDigit)
      | cs => (0, cs)
    let offset ← readOffset? cs
    return { year, month, day, clock := some (hour, minute, second, micro), offset }

/-- Whether a plain scalar is a date or time: a date alone has two digits for month and day. -/
def isTimestamp (s : String) : Bool :=
  match readTimestamp? s with
  | some t => t.clock.isSome || s.length = 10
  | none => false

private def calendar {α : Type} (d : CalendarDefect) : Except Fault α :=
  .error (.refused (.calendar d))

private def checkDate (t : Timestamp) : Except Fault Date :=
  match Date.defect? t.year t.month t.day with
  | some (.year n) => calendar (.year n)
  | some .month => calendar .month
  | some .day => calendar .day
  | none => .ok ⟨t.year, t.month, t.day⟩

private def dayLength : Int := 86400

/-- The value of a date or time; a fault if it does not exist. -/
def Timestamp.toValue (t : Timestamp) : Except Fault Value := do
  match t.clock with
  | none => return .date (← checkDate t)
  | some (hour, minute, second, micro) =>
    match t.offset with
    | some o => if o ≤ -dayLength || dayLength ≤ o then calendar (.offset o)
    | none => pure ()
    let date ← checkDate t
    if 23 < hour then calendar .hour
    if 59 < minute then calendar .minute
    if 59 < second then calendar .second
    return .dateTime ⟨date, hour, minute, second, micro, t.offset⟩

/-! ### Numbers -/

/-- An integer numeral of a base, with the mark of the base allowed before its digits. -/
private def readBased? (base : Nat) (mark : Char) (text : List Char) : Option Int := do
  let (negative, body) := Numeral.takeSign (Text.trimBlanks text)
  let ds := match body with
    | '0' :: x :: rest => if x.toLower == mark then rest else body
    | _ => body
  let n ← Numeral.ofBaseDigits? base ds
  return if negative then -(n : Int) else n

private def integerIn (base : Nat) (text : List Char) : Except Fault Int :=
  let read := match base with
    | 2 => readBased? 2 'b' text
    | 8 => readBased? 8 'o' text
    | 16 => readBased? 16 'x' text
    | _ => Numeral.readInt? text
  match read with
  | some n => .ok n
  | none =>
    if base = 10 && Numeral.digitLimit < text.length && text.all Text.isDecimalDigit then
      .error .digitLimit
    else .error (.refused (.notInteger base (Text.quoted (String.ofList text))))

/-- Sign and rest of a numeral without its underscores. An empty text has neither. -/
private def signed (s : String) : Except Fault (Bool × List Char) :=
  match s.toList.filter (· != '_') with
  | [] => .error .noSuchEntry
  | '-' :: cs => .ok (true, cs)
  | '+' :: cs => .ok (false, cs)
  | cs => .ok (false, cs)

private def parts (cs : List Char) : List (List Char) := cs.splitOn ':'

/-- The integer that a text stands for. -/
def toInteger (s : String) : Except Fault Int := do
  let (negative, cs) ← signed s
  let n ← match cs with
    | ['0'] => pure 0
    | '0' :: 'b' :: ds => integerIn 2 ds
    | '0' :: 'x' :: ds => integerIn 16 ds
    | '0' :: _ => integerIn 8 cs
    | [] => throw .noSuchEntry
    | _ =>
      if cs.contains ':' then do
        let ns ← (parts cs).mapM (integerIn 10)
        pure (ns.foldl (fun acc n => acc * 60 + n) 0)
      else integerIn 10 cs
  return if negative then -n else n

/-- Places of base sixty added from the last to the first. -/
private def sumSixties (xs : List Binary64) : Binary64 :=
  (xs.reverse.foldl (fun (acc : Binary64 × Int) x =>
    (acc.1.add (x.mul (.ofInt acc.2)), acc.2 * 60)) (.zero false, 1)).1

/-- The floating-point number that a text stands for. -/
def toFloat (s : String) : Except Fault Binary64 := do
  let (negative, cs) ← signed s.toLower
  let x ←
    if cs == ['.', 'i', 'n', 'f'] then pure (.infinite false)
    else if cs == ['.', 'n', 'a', 'n'] then pure .nan
    else if cs.contains ':' then do pure (sumSixties (← (parts cs).mapM Numeral.toFloat))
    else Numeral.toFloat cs
  return if negative then x.neg else x

/-! ### Bytes -/

private def sextet? (c : Char) : Option Nat :=
  if 'A' ≤ c && c ≤ 'Z' then some (c.toNat - 'A'.toNat)
  else if 'a' ≤ c && c ≤ 'z' then some (c.toNat - 'a'.toNat + 26)
  else if c.isDigit then some (c.toNat - '0'.toNat + 52)
  else if c == '+' then some 62
  else if c == '/' then some 63
  else none

/-- The bytes of text in base 64. Characters of no meaning are skipped; `none` if the last group is not
filled up. -/
private def decode64 : List Char → List Nat → Nat → Option (List UInt8)
  | [], group, _ => if group.isEmpty then some [] else none
  | c :: cs, group, pads =>
    if c == '=' then
      if 2 ≤ group.length && 4 ≤ group.length + pads + 1 then
        match group with
        | [a, b] => some [((a * 4 + b / 16) % 256).toUInt8]
        | [a, b, c] => some [((a * 4 + b / 16) % 256).toUInt8, ((b * 16 + c / 4) % 256).toUInt8]
        | _ => none
      else decode64 cs group (if 2 ≤ group.length then pads + 1 else pads)
    else
      match sextet? c with
      | none => decode64 cs group pads
      | some x =>
        match group ++ [x] with
        | [a, b, c, d] =>
          (decode64 cs [] 0).map fun rest =>
            ((a * 4 + b / 16) % 256).toUInt8 :: ((b * 16 + c / 4) % 256).toUInt8 ::
              ((c * 64 + d) % 256).toUInt8 :: rest
        | group => decode64 cs group 0

/-! ### Tags and values -/

private def matches? (pattern : String) : Option Regex.Pattern := (Regex.parse pattern).toOption

private def fits (pattern : Option Regex.Pattern) (s : String) : Bool :=
  pattern.any (·.search s)

private def integerForm : Option Regex.Pattern :=
  matches? ("^(?:[-+]?0b[0-1_]+|[-+]?0[0-7_]+|[-+]?(?:0|[1-9][0-9_]*)|[-+]?0x[0-9a-fA-F_]+" ++
    "|[-+]?[1-9][0-9_]*(?::[0-5]?[0-9])+)$")

private def floatForm : Option Regex.Pattern :=
  matches? ("^(?:[-+]?(?:[0-9][0-9_]*)\\.[0-9_]*(?:[eE][-+][0-9]+)?" ++
    "|\\.[0-9][0-9_]*(?:[eE][-+][0-9]+)?|[-+]?[0-9][0-9_]*(?::[0-5]?[0-9])+\\.[0-9_]*" ++
    "|[-+]?\\.(?:inf|Inf|INF)|\\.(?:nan|NaN|NAN))$")

private def trueWords : List String :=
  ["yes", "Yes", "YES", "true", "True", "TRUE", "on", "On", "ON"]

private def falseWords : List String :=
  ["no", "No", "NO", "false", "False", "FALSE", "off", "Off", "OFF"]

/-- The tag of a plain scalar. -/
def implicitTag (s : String) : Tag :=
  if trueWords.contains s || falseWords.contains s then .bool
  else if ["", "~", "null", "Null", "NULL"].contains s then .null
  else if s == "<<" then .merge
  else if s == "=" then .value
  else if isTimestamp s then .timestamp
  else if fits floatForm s then .float
  else if fits integerForm s then .int
  else .str

/-- The value that a text with a tag stands for. -/
def toValue (tag : Tag) (s : String) : Except Fault Value :=
  match tag with
  | .null => .ok .null
  | .bool =>
    let lowered := s.toLower
    if trueWords.contains lowered then .ok (.bool true)
    else if falseWords.contains lowered then .ok (.bool false)
    else .error .noSuchKey
  | .int => return .int (← toInteger s)
  | .float => return .float (← toFloat s)
  | .binary =>
    match decode64 s.toList [] 0 with
    | some bs => if s.toList.all (·.toNat < 0x80) then .ok (.bytes bs) else .error (.yaml .values)
    | none => .error (.yaml .values)
  | .timestamp =>
    match readTimestamp? s with
    | some t => t.toValue
    | none => .error .noSuchMember
  | .str => .ok (.str s)
  | _ => .error (.yaml .values)

end Scalar

end ApiContract.Yaml
