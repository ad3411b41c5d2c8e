import ApiContract.Number.Numeral
import ApiContract.Text.Encoding
import ApiContract.Value.Basic

/-!
# Reading JSON text

A number with a point or an exponent is a floating-point number, any other an integer; `NaN`,
`Infinity` and `-Infinity` are numbers. A repeated member keeps its first place and its last value.
A text that is no JSON is refused with the place where reading stopped. Every step takes at least one
character, so the length of the text bounds the number of steps.
-/

namespace ApiContract.Json

/-- Why a text is no JSON value. -/
inductive SyntaxFault where
  /-- What was expected or found wrong, and the place. -/
  | at (what : String) (place : Nat)
  /-- An integer longer than any that is read. -/
  | digitLimit
  deriving DecidableEq, Repr

/-- The place of a fault in a text, as line, column and character count. -/
def placeText (text : List Char) (place : Nat) : String :=
  let before := text.take place
  let line := before.count '\n' + 1
  let column := (before.reverse.takeWhile (· != '\n')).length + 1
  s!"line {line} column {column} (char {place})"

/-- What is left of a text, and how many characters were taken before. -/
structure Input where
  place : Nat
  rest : List Char

private def isBlank (c : Char) : Bool := c == ' ' || c == '\t' || c == '\n' || c == '\r'

/-- The input after blanks. -/
def Input.skipBlanks (i : Input) : Input :=
  let blanks := i.rest.takeWhile isBlank
  ⟨i.place + blanks.length, i.rest.dropWhile isBlank⟩

private def isHexDigit (c : Char) : Bool :=
  ('0' ≤ c && c ≤ '9') || ('a' ≤ c && c ≤ 'f') || ('A' ≤ c && c ≤ 'F')

/-- The number of four hexadecimal digits, with at least one character after them. -/
private def unit? (cs : List Char) : Option Nat :=
  let ds := cs.take 4
  if ds.length = 4 && ds.all isHexDigit then Numeral.ofBaseDigits? 16 ds else none

private def simpleEscape? : Char → Option Char
  | '"' => some '"'
  | '\\' => some '\\'
  | '/' => some '/'
  | 'b' => some '\x08'
  | 'f' => some '\x0c'
  | 'n' => some '\n'
  | 'r' => some '\r'
  | 't' => some '\t'
  | _ => none

private def charOfUnit (u : Nat) : Char :=
  if 0xd800 ≤ u ∧ u ≤ 0xdfff then Text.replacementChar else Char.ofNat u

/-- The characters of a string up to its closing quote. `start` is the place of the opening quote,
`seen` holds the characters read so far in reverse. -/
private def readString (start : Nat) :
    Nat → Nat → List Char → List Char → Except SyntaxFault (List Char × Input)
  | 0, _, _, _ => .error (.at "Unterminated string starting at" start)
  | fuel + 1, place, seen, cs =>
    match cs with
    | [] => .error (.at "Unterminated string starting at" start)
    | '"' :: rest => .ok (seen.reverse, ⟨place + 1, rest⟩)
    | '\\' :: [] => .error (.at "Unterminated string starting at" start)
    | '\\' :: 'u' :: rest =>
      if rest.length < 5 then .error (.at "Invalid \\uXXXX escape" (place + 1))
      else match unit? rest with
        | none => .error (.at "Invalid \\uXXXX escape" (place + 1))
        | some u =>
          let after := rest.drop 4
          let single := readString start fuel (place + 6) (charOfUnit u :: seen) after
          if 0xd800 ≤ u ∧ u ≤ 0xdbff then
            match after with
            | '\\' :: 'u' :: more =>
              if more.length < 5 then single
              else match unit? more with
                | none => .error (.at "Invalid \\uXXXX escape" (place + 7))
                | some v =>
                  if 0xdc00 ≤ v ∧ v ≤ 0xdfff then
                    let c := Char.ofNat (0x10000 + (u - 0xd800) * 1024 + (v - 0xdc00))
                    readString start fuel (place + 12) (c :: seen) (more.drop 4)
                  else single
            | _ => single
          else single
    | '\\' :: e :: rest =>
      match simpleEscape? e with
      | some c => readString start fuel (place + 2) (c :: seen) rest
      | none => .error (.at "Invalid \\escape" place)
    | c :: rest =>
      if c.toNat < 0x20 then .error (.at "Invalid control character at" place)
      else readString start fuel (place + 1) (c :: seen) rest

private def isDigit (c : Char) : Bool := '0' ≤ c && c ≤ '9'

/-- A number, from its first character. -/
private def readNumber (i : Input) : Except SyntaxFault (Value × Input) :=
  let expecting : Except SyntaxFault (Value × Input) := .error (.at "Expecting value" i.place)
  let (sign, body) := match i.rest with
    | '-' :: r => (['-'], r)
    | r => ([], r)
  let whole := match body with
    | '0' :: _ => ['0']
    | r => r.takeWhile isDigit
  if whole.isEmpty then expecting
  else
    let afterWhole := body.drop whole.length
    let fraction := match afterWhole with
      | '.' :: r => if (r.takeWhile isDigit).isEmpty then [] else '.' :: r.takeWhile isDigit
      | _ => []
    let afterFraction := afterWhole.drop fraction.length
    let exponent := match afterFraction with
      | e :: r =>
        if e == 'e' || e == 'E' then
          let sign := match r with
            | '+' :: _ => ['+']
            | '-' :: _ => ['-']
            | _ => []
          let ds := (r.drop sign.length).takeWhile isDigit
          if ds.isEmpty then [] else e :: sign ++ ds
        else []
      | [] => []
    let text := sign ++ whole ++ fraction ++ exponent
    let after : Input := ⟨i.place + text.length, afterFraction.drop exponent.length⟩
    if fraction.isEmpty && exponent.isEmpty then
      match Numeral.readInt? text with
      | some n => .ok (.int n, after)
      | none => .error .digitLimit
    else
      match Numeral.readFloat? text with
      | some x => .ok (.float x, after)
      | none => expecting

/-- The words that stand for a value. -/
private def words : List (List Char × Value) :=
  [("null".toList, .null), ("true".toList, .bool true), ("false".toList, .bool false),
    ("NaN".toList, .float .nan), ("Infinity".toList, .float (.infinite false)),
    ("-Infinity".toList, .float (.infinite true))]

mutual
/-- The value at the beginning of the input, which has no blanks in front. -/
private def readValue : Nat → Input → Except SyntaxFault (Value × Input)
  | 0, i => .error (.at "Expecting value" i.place)
  | fuel + 1, i =>
    match i.rest with
    | [] => .error (.at "Expecting value" i.place)
    | '"' :: rest => do
      let (cs, after) ← readString i.place (rest.length + 1) (i.place + 1) [] rest
      return (.str (String.ofList cs), after)
    | '\x7b' :: rest =>
      let i := Input.skipBlanks ⟨i.place + 1, rest⟩
      match i.rest with
      | '\x7d' :: rest => .ok (.dict [], ⟨i.place + 1, rest⟩)
      | _ => do
        let (members, after) ← readMembers fuel i
        return (.dict (Value.ofEntries members), after)
    | '[' :: rest =>
      let i := Input.skipBlanks ⟨i.place + 1, rest⟩
      match i.rest with
      | ']' :: rest => .ok (.list [], ⟨i.place + 1, rest⟩)
      | _ => do
        let (items, after) ← readItems fuel i
        return (.list items, after)
    | _ =>
      match words.find? fun w => w.1.isPrefixOf i.rest with
      | some (w, v) => .ok (v, ⟨i.place + w.length, i.rest.drop w.length⟩)
      | none => readNumber i

/-- The members of an object that is not empty, from the first key on. -/
private def readMembers : Nat → Input → Except SyntaxFault (List (Value × Value) × Input)
  | 0, i => .error (.at "Expecting value" i.place)
  | fuel + 1, i => do
    match i.rest with
    | '"' :: rest =>
      let (key, after) ← readString i.place (rest.length + 1) (i.place + 1) [] rest
      let i := after.skipBlanks
      match i.rest with
      | ':' :: rest =>
        let (value, after) ← readValue fuel (Input.skipBlanks ⟨i.place + 1, rest⟩)
        let member := (Value.str (String.ofList key), value)
        let i := after.skipBlanks
        match i.rest with
        | '\x7d' :: rest => return ([member], ⟨i.place + 1, rest⟩)
        | ',' :: rest =>
          let (members, after) ← readMembers fuel (Input.skipBlanks ⟨i.place + 1, rest⟩)
          return (member :: members, after)
        | _ => .error (.at "Expecting ',' delimiter" i.place)
      | _ => .error (.at "Expecting ':' delimiter" i.place)
    | _ => .error (.at "Expecting property name enclosed in double quotes" i.place)

/-- The items of an array that is not empty, from the first on. -/
private def readItems : Nat → Input → Except SyntaxFault (List Value × Input)
  | 0, i => .error (.at "Expecting value" i.place)
  | fuel + 1, i => do
    let (value, after) ← readValue fuel i
    let i := after.skipBlanks
    match i.rest with
    | ']' :: rest => return ([value], ⟨i.place + 1, rest⟩)
    | ',' :: rest =>
      let (items, after) ← readItems fuel (Input.skipBlanks ⟨i.place + 1, rest⟩)
      return (value :: items, after)
    | _ => .error (.at "Expecting ',' delimiter" i.place)
end

/-- The value of a JSON text. -/
def readChars (text : List Char) : Except SyntaxFault Value := do
  match text with
  | '\ufeff' :: _ => .error (.at "Unexpected UTF-8 BOM (decode using utf-8-sig)" 0)
  | _ =>
    let (value, after) ← readValue (2 * text.length + 2) (Input.skipBlanks ⟨0, text⟩)
    let i := after.skipBlanks
    if i.rest.isEmpty then return value else .error (.at "Extra data" i.place)

/-- The text of bytes in UTF-8, UTF-16 or UTF-32, told apart by a byte order mark or by the zero bytes
among the first four. A reader may let halves of surrogate pairs pass that are coded in UTF-8 by themselves; here
they are refused, as they are no characters. -/
def decode? (bs : List UInt8) : Option (List Char) :=
  match bs with
  | 0 :: 0 :: 0xfe :: 0xff :: rest => Text.decodeUtf32? .big rest
  | 0xff :: 0xfe :: 0 :: 0 :: rest => Text.decodeUtf32? .little rest
  | 0xfe :: 0xff :: rest => Text.decodeUtf16? .big rest
  | 0xff :: 0xfe :: rest => Text.decodeUtf16? .little rest
  | 0xef :: 0xbb :: 0xbf :: rest => Text.decodeUtf8? rest
  | a :: b :: c :: d :: _ =>
    if a = 0 then if b = 0 then Text.decodeUtf32? .big bs else Text.decodeUtf16? .big bs
    else if b = 0 then
      if c = 0 ∧ d = 0 then Text.decodeUtf32? .little bs else Text.decodeUtf16? .little bs
    else Text.decodeUtf8? bs
  | [a, b] =>
    if a = 0 then Text.decodeUtf16? .big bs
    else if b = 0 then Text.decodeUtf16? .little bs
    else Text.decodeUtf8? bs
  | _ => Text.decodeUtf8? bs

/-- The value of a JSON text given as bytes, `none` if it cannot be read. -/
def readBytes? (bs : List UInt8) : Option Value :=
  (decode? bs).bind fun cs => (readChars cs).toOption

end ApiContract.Json
