import ApiContract.Calendar.Basic
import ApiContract.Number.Binary64

/-!
# Values

The values that are validated, converted and documented: those of JSON, and those that a program or
a document format may put in their place (tuples, bytes, dates, sets, dictionaries with arbitrary
keys, and `absent`, which stands for a value that was not given).

Main definitions: `Value.same`, the equality under which `1`, `1.0` and `true` are one value and the
order of a dictionary's entries does not count, and `Value.truthy`.
-/

namespace ApiContract

inductive Value where
  | null
  | bool (b : Bool)
  | int (n : Int)
  | float (x : Binary64)
  | str (s : String)
  | bytes (bs : List UInt8)
  | list (items : List Value)
  | tuple (items : List Value)
  | dict (entries : List (Value × Value))
  | absent
  | date (d : Date)
  | dateTime (t : DateTime)
  | set (items : List Value)
  /-- A universally unique identifier, in its standard text. -/
  | uuid (text : String)
  deriving Inhabited

namespace Value

/-- A number for the purpose of comparison. -/
inductive Number where
  | int (n : Int)
  | float (x : Binary64)
  deriving DecidableEq

namespace Number

/-- The exact order of two numbers, `none` if one of them is not a number. -/
def compare? : Number → Number → Option Ordering
  | .int a, .int b => some (compare a b)
  | .float x, .int n => x.compareInt n
  | .int n, .float x => (x.compareInt n).map Ordering.swap
  | .float x, .float y => x.compare? y

def same (a b : Number) : Bool := a.compare? b == some .eq

end Number

/-- The number that a value counts as: a truth value counts as zero or one. -/
def number? : Value → Option Number
  | .bool b => some (.int (if b then 1 else 0))
  | .int n => some (.int n)
  | .float x => some (.float x)
  | _ => none

/-- Whether a value is a number of its own right, which a truth value is not. -/
def isNumber : Value → Bool
  | .int _ | .float _ => true
  | _ => false

/-- Equality of two times: of their instants if both have an offset, of their clocks if none has. -/
def sameTime (s t : DateTime) : Bool :=
  s.offset.isSome == t.offset.isSome && s.instant == t.instant

mutual
/-- Equality of values. Numbers are equal if they are numerically equal, dictionaries if they bind
equal keys to equal values in any order. -/
def same : Value → Value → Bool
  | .null, .null => true
  | .bool a, v => (v.number?.map (Number.same (.int (if a then 1 else 0)))).getD false
  | .int a, v => (v.number?.map (Number.same (.int a))).getD false
  | .float a, v => (v.number?.map (Number.same (.float a))).getD false
  | .str a, .str b => a == b
  | .bytes a, .bytes b => a == b
  | .list xs, .list ys => sameItems xs ys
  | .tuple xs, .tuple ys => sameItems xs ys
  | .dict xs, .dict ys => xs.length == ys.length && sameEntries xs ys
  | .absent, .absent => true
  | .date a, .date b => a == b
  | .dateTime a, .dateTime b => sameTime a b
  | .set xs, .set ys => xs.length == ys.length && sameMembers xs ys
  | .uuid a, .uuid b => a == b
  | _, _ => false
termination_by structural v => v

def sameItems : List Value → List Value → Bool
  | [], [] => true
  | x :: xs, y :: ys => x.same y && sameItems xs ys
  | _, _ => false
termination_by structural v => v

/-- Every entry of the first list has an equal entry in the second. -/
def sameEntries : List (Value × Value) → List (Value × Value) → Bool
  | [], _ => true
  | (k, v) :: es, ys => ys.any (fun e => k.same e.1 && v.same e.2) && sameEntries es ys
termination_by structural v => v

def sameMembers : List Value → List Value → Bool
  | [], _ => true
  | x :: xs, ys => ys.any (fun y => x.same y) && sameMembers xs ys
termination_by structural v => v
end

/-- Whether a list holds a value equal to the given one. -/
def isIn (v : Value) (items : List Value) : Bool := items.any (v.same ·)

/-- Whether a condition on values holds for this one: zero, empty and absent values do not count. -/
def truthy : Value → Bool
  | .null => false
  | .bool b => b
  | .int n => n != 0
  | .float x => !x.isZero
  | .str s => !s.isEmpty
  | .bytes bs => !bs.isEmpty
  | .list xs | .tuple xs | .set xs => !xs.isEmpty
  | .dict es => !es.isEmpty
  | .absent => false
  | .date _ | .dateTime _ | .uuid _ => true

def isAbsent : Value → Bool
  | .absent => true
  | _ => false

def isNull : Value → Bool
  | .null => true
  | _ => false

/-- The name of a value's type, as messages give it. -/
def typeName : Value → String
  | .null => "NoneType"
  | .bool _ => "bool"
  | .int _ => "int"
  | .float _ => "float"
  | .str _ => "str"
  | .bytes _ => "bytes"
  | .list _ => "list"
  | .tuple _ => "tuple"
  | .dict _ => "dict"
  | .absent => "_Missing"
  | .date _ => "date"
  | .dateTime _ => "datetime"
  | .set _ => "set"
  | .uuid _ => "UUID"

/-- The name of the schema type that a value belongs to; values of no schema type keep the name of
their own. -/
def describe : Value → String
  | .null => "null"
  | .str _ => "string"
  | .int _ => "integer"
  | .float _ => "number"
  | .bool _ => "boolean"
  | .list _ | .tuple _ => "array"
  | .dict _ => "object"
  | v => v.typeName

/-- The items of a list or tuple. -/
def items? : Value → Option (List Value)
  | .list xs | .tuple xs => some xs
  | _ => none

/-- The value of a key among entries. -/
def lookup? (key : Value) (entries : List (Value × Value)) : Option Value :=
  (entries.find? fun e => key.same e.1).map (·.2)

/-- Whether a key is bound among entries. -/
def hasKey (key : Value) (entries : List (Value × Value)) : Bool :=
  entries.any fun e => key.same e.1

/-- Binds a key: an equal key keeps its place and its spelling and gets the new value, a new key goes
to the end. -/
def bind (entries : List (Value × Value)) (key value : Value) : List (Value × Value) :=
  if hasKey key entries then
    entries.map fun e => if key.same e.1 then (e.1, value) else e
  else entries ++ [(key, value)]

/-- Entries bound one after the other, from none. -/
def ofEntries (entries : List (Value × Value)) : List (Value × Value) :=
  entries.foldl (fun es e => bind es e.1 e.2) []

/-- A dictionary with text keys. -/
def record (members : List (String × Value)) : Value :=
  .dict (members.map fun m => (.str m.1, m.2))

example : same (.dict [(.str "a", .int 1), (.str "b", .null)])
    (.dict [(.str "b", .null), (.str "a", .bool true)]) = true := by decide
example : same (.float .nan) (.float .nan) = false := by decide
example : same (.int (Nat.pow 10 400)) (.float (.infinite false)) = false := by decide

end Value

end ApiContract
