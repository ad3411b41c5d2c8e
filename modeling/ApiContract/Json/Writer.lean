import ApiContract.Value.Display
import ApiContract.Value.Order

/-!
# JSON text of values

Writes a value as JSON text in a `Style`. Tuples are written as arrays; the keys of a dictionary may
be texts, numbers, truth values and null, whose JSON texts become the member names. A value without a
JSON form is refused, or written as its display text where the style says so.
-/

namespace ApiContract.Json

/-- The choices of a JSON writer. -/
structure Style where
  /-- Characters beyond ASCII are written as escapes. -/
  ascii : Bool := false
  /-- Blanks per level, each member on a line of its own. -/
  indent : Option Nat := none
  /-- Blanks after commas and colons of a text in one line. -/
  spaced : Bool := false
  /-- Members in the order of their keys. -/
  sorted : Bool := false
  /-- Numbers that are not finite are written as `NaN`, `Infinity` and `-Infinity`. -/
  nonFinite : Bool := true
  /-- A value without a JSON form is written as its display text. -/
  displayOthers : Bool := false

def unitEscape (u : Nat) : List Char := '\\' :: 'u' :: Text.hexDigits 4 u

def escapeChar (ascii : Bool) (c : Char) : List Char :=
  if c == '"' || c == '\\' then ['\\', c]
  else if c == '\n' then ['\\', 'n']
  else if c == '\r' then ['\\', 'r']
  else if c == '\t' then ['\\', 't']
  else if c == '\x08' then ['\\', 'b']
  else if c == '\x0c' then ['\\', 'f']
  else if c.toNat < 0x20 then unitEscape c.toNat
  else if ascii && 0x7e < c.toNat then
    if c.toNat < 0x10000 then unitEscape c.toNat
    else
      let n := c.toNat - 0x10000
      unitEscape (0xd800 + n / 1024) ++ unitEscape (0xdc00 + n % 1024)
  else [c]

/-- A text as a JSON string. -/
def stringText (ascii : Bool) (s : String) : String :=
  String.ofList ('"' :: s.toList.flatMap (escapeChar ascii) ++ ['"'])

/-- The text of a floating-point number. -/
def floatText (style : Style) (x : Binary64) : Except Fault String :=
  if x.isFinite then .ok x.text
  else if style.nonFinite then
    .ok (if x.isNan then "NaN" else if x.isNegative then "-Infinity" else "Infinity")
  else .error .notFinite

/-- The member name that a key becomes. -/
def keyText (style : Style) : Value → Except Fault String
  | .str s => .ok s
  | .bool b => .ok (if b then "true" else "false")
  | .null => .ok "null"
  | .int n => intText n
  | .float x => floatText style x
  | _ => .error .unsupported

def newline (style : Style) (level : Nat) : String :=
  match style.indent with
  | none => ""
  | some width => "\n" ++ String.ofList (List.replicate (width * level) ' ')

def itemSeparator (style : Style) : String :=
  if style.indent.isNone && style.spaced then ", " else ","

def keySeparator (style : Style) : String :=
  if style.indent.isSome || style.spaced then ": " else ":"

/-- Texts between brackets, each on its own line if the style is indented. -/
def bracketed (style : Style) (level : Nat) (opening closing : String) (texts : List String) :
    String :=
  match texts with
  | [] => opening ++ closing
  | texts =>
    opening ++ newline style (level + 1) ++
      (itemSeparator style ++ newline style (level + 1)).intercalate texts ++
      newline style level ++ closing

/-- A member that is already written, with its key. -/
abbrev Member := Value × String

/-- Inserts a member before the first whose key is greater. -/
def insertByKey (m : Member) : List Member → Except Fault (List Member)
  | [] => .ok [m]
  | n :: rest => do
    if ← Value.isLess m.1 n.1 then return m :: n :: rest
    else return n :: (← insertByKey m rest)

/-- Members in the order of their keys; a fault if two keys have no order. -/
def sortMembers (ms : List Member) : Except Fault (List Member) :=
  ms.foldlM (fun sorted m => insertByKey m sorted) []

mutual
/-- The JSON text of a value at a level of indentation. -/
def writeAt (style : Style) (level : Nat) : Value → Except Fault String
  | .null => .ok "null"
  | .bool b => .ok (if b then "true" else "false")
  | .int n => intText n
  | .float x => floatText style x
  | .str s => .ok (stringText style.ascii s)
  | .list xs => do return bracketed style level "[" "]" (← writeItems style (level + 1) xs)
  | .tuple xs => do return bracketed style level "[" "]" (← writeItems style (level + 1) xs)
  | .dict es => do
    let ms ← writeMembers style (level + 1) es
    let ms ← if style.sorted then sortMembers ms else pure ms
    return bracketed style level "\x7b" "\x7d" (ms.map (·.2))
  | .bytes bs =>
    if style.displayOthers then .ok (stringText style.ascii (Text.quotedBytes bs))
    else .error .unsupported
  | .absent =>
    if style.displayOthers then .ok (stringText style.ascii "MISSING") else .error .unsupported
  | .date d => do
    if style.displayOthers then return stringText style.ascii (← Value.display (.date d))
    else .error .unsupported
  | .dateTime t =>
    if style.displayOthers then .ok (stringText style.ascii t.form) else .error .unsupported
  | .set xs => do
    if style.displayOthers then return stringText style.ascii (← Value.display (.set xs))
    else .error .unsupported
  | .uuid t => do
    if style.displayOthers then return stringText style.ascii (← Value.display (.uuid t))
    else .error .unsupported
termination_by structural v => v

def writeItems (style : Style) (level : Nat) : List Value → Except Fault (List String)
  | [] => .ok []
  | x :: xs => do
    let t ← writeAt style level x
    return t :: (← writeItems style level xs)
termination_by structural v => v

def writeMembers (style : Style) (level : Nat) : List (Value × Value) → Except Fault (List Member)
  | [] => .ok []
  | (k, v) :: es => do
    let name ← keyText style k
    let text ← writeAt style level v
    return (k, stringText style.ascii name ++ keySeparator style ++ text) ::
      (← writeMembers style level es)
termination_by structural v => v
end

/-- The JSON text of a value. -/
def write (style : Style) (v : Value) : Except Fault String := writeAt style 0 v

/-- One line without blanks, for responses: only finite numbers have a text. -/
def responseStyle : Style := { nonFinite := false }

/-- Two blanks per level, for documents. -/
def documentStyle : Style := { indent := some 2 }

/-- One line in ASCII with members in the order of their keys; every value has a text. -/
def canonicalStyle : Style :=
  { ascii := true, spaced := true, sorted := true, displayOthers := true }

/-- Whether a value has a JSON text. -/
def isSerializable (v : Value) : Bool := (write { ascii := true, spaced := true } v).toBool

example : (write responseStyle (.dict [(.str "a", .tuple [.int 1, .null])])).toOption =
    some "\x7b\"a\":[1,null]\x7d" := by decide +kernel
example : (write canonicalStyle (.dict [(.str "b", .str "é"), (.str "a", .bytes [0])])).toOption =
    some "\x7b\"a\": \"b'\\\\x00'\", \"b\": \"\\u00e9\"\x7d" := by decide +kernel

end ApiContract.Json
