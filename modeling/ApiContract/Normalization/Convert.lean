import ApiContract.Number.Reading
import ApiContract.Schema.Basic
import ApiContract.Text.LetterCase
import ApiContract.Value.Display

/-!
# Conversion

Coerces values toward the types of a schema's leaves where nothing is lost. A value that cannot be
coerced stays as it is, so that checking reports it. Values that come as text are coerced further:
`null` stands for null, and a single value for an array of one.
-/

namespace ApiContract

namespace Convert

/-- A text without one line feed at its end. -/
def dropFinalNewline (cs : List Char) : List Char :=
  if cs.getLast? == some '\n' then cs.dropLast else cs

/-- Whether a text is an integer numeral: decimal digits of any script behind a sign, if there is one. -/
def isIntegerText (cs : List Char) : Bool :=
  let ds := (Numeral.takeSign cs).2
  !ds.isEmpty && ds.all Text.isDecimalDigit

/-- Whether a text is an exponent: nothing, or its letter and an integer numeral. -/
def isExponentText : List Char → Bool
  | [] => true
  | e :: cs => (e == 'e' || e == 'E') && isIntegerText cs

/-- Whether a text is a decimal numeral: behind a sign, if there is one, decimal digits of any script
with at most one point before, between or after them, and an exponent. -/
def isNumeralText (cs : List Char) : Bool :=
  let (whole, fraction, rest) := Numeral.takeMantissa (Numeral.takeSign cs).2
  !(whole.isEmpty && fraction.isEmpty) && isExponentText rest

/-- The number that a text denotes, if the leaf admits it: it must be finite, and without fraction where
only integers are asked for. -/
def admitted (integral : Bool) (s : String) (x : Binary64) : Value :=
  if !x.isFinite then .str s
  else if integral then
    match x.toInt? with
    | some n => .int n
    | none => .str s
  else .float x

/-- A text that is a numeral as a number, if the leaf admits the number. The form of the text says how it
is to be read. An integer numeral that is refused, as one of too many digits is, stays a text. -/
def numberOfText (integral : Bool) (s : String) : Except Fault Value :=
  let cs := dropFinalNewline s.toList
  if isIntegerText cs then
    match Numeral.readInt? s.toList with
    | some n => .ok (.int n)
    | none => .ok (.str s)
  else if isNumeralText cs then do return admitted integral s (← Numeral.toFloat s.toList)
  else .ok (.str s)

/-- Toward a number: numerals become numbers, and where only integers are asked for, numbers without
fraction become integers. -/
def number (integral : Bool) : Value → Except Fault Value
  | .str s => numberOfText integral s
  | .float x =>
    if integral then
      match x.toInt? with
      | some n => .ok (.int n)
      | none => .ok (.float x)
    else .ok (.float x)
  | v => .ok v

/-- Toward a truth value: `true`, `false`, `1` and `0` as texts in any case, and one and zero. -/
def boolean : Value → Value
  | .str s =>
    let lowered := Text.toLower s
    if lowered == "true" || lowered == "1" then .bool true
    else if lowered == "false" || lowered == "0" then .bool false
    else .str s
  | .int n => if n = 1 then .bool true else if n = 0 then .bool false else .int n
  | v => v

/-- Toward a text: truth values and finite numbers become their texts. -/
def string : Value → Except Fault Value
  | .bool b => .ok (.str (if b then "true" else "false"))
  | .int n => do return .str (← intText n)
  | .float x => .ok (if x.isFinite then .str x.text else .float x)
  | v => .ok v

end Convert

namespace Schema

def isText : Schema → Bool
  | .string .. => true
  | _ => false

def isNullText : Value → Bool
  | .str s => s == "null"
  | _ => false

/-- Whether a single value stands for an array of one. -/
def standsAlone : Value → Bool
  | .null | .dict _ => false
  | _ => true

mutual
/-- Coerces a value; `textual` says that it comes as text. -/
def convert (textual : Bool) : Schema → Value → Except Fault Value
  | .refined _ _ base, v => base.convert textual v
  | .nullable _ inner, v =>
    match v with
    | .null => .ok .null
    | v =>
      if textual && isNullText v && !inner.unwrap.isText then .ok .null
      else inner.convert textual v
  | .object _ _ properties, v =>
    match v with
    | .dict entries => do
      let entries ← entries.mapM fun e => do
        return (e.1, ← convertProperty textual properties e.1 e.2)
      return .dict entries
    | v => .ok v
  | .array _ _ items, v =>
    match v.items? with
    | some xs => do return .list (← xs.mapM (items.convert textual))
    | none =>
      if textual && standsAlone v then do return .list [← items.convert textual v]
      else .ok v
  | .number .., v => Convert.number false v
  | .integer .., v => Convert.number true v
  | .boolean _, v => .ok (Convert.boolean v)
  | .string .., v => Convert.string v
  | _, v => .ok v
termination_by structural s => s

/-- The item of a key, coerced if the key is declared. -/
def convertProperty (textual : Bool) :
    List (Value × Schema) → Value → Value → Except Fault Value
  | [], _, item => .ok item
  | (name, s) :: rest, key, item =>
    if key.same name then s.convert textual item else convertProperty textual rest key item
termination_by structural ps => ps
end

/-- Coercion for a target, if one is given. -/
def convertFor (s : Schema) (target : Option Target) (v : Value) : Except Fault Value :=
  s.convert (target.any Target.isTextual) v

end Schema

end ApiContract
