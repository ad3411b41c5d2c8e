import ApiContract.Schema.Basic
import ApiContract.Value.Display

/-!
# Ready-made conditions

Conditions that refinements use often, each with an argument: constants, comparisons, lengths,
membership, the order of two fields. A condition may be undecidable for a value: comparing values
without an order or measuring a value without length is a fault, as is the condition `raises`.
-/

namespace ApiContract

inductive ReadyMade where
  | always
  | never
  /-- The condition is the argument itself, whatever the value. -/
  | returns (argument : Value)
  | lengthAtMost (bound : Value)
  | lengthAtLeast (bound : Value)
  | less (bound : Value)
  | greater (bound : Value)
  | equals (other : Value)
  | contains (member : Value)
  /-- The first field is at most the second. -/
  | fieldsInOrder (first second : Value)
  | raises (text : String)

namespace ReadyMade

/-- The condition of a name with its argument. -/
def ofName? (name : String) (argument : Value) : Option ReadyMade :=
  match name with
  | "always" => some .always
  | "never" => some .never
  | "returns" => some (.returns argument)
  | "len_le" => some (.lengthAtMost argument)
  | "len_ge" => some (.lengthAtLeast argument)
  | "lt" => some (.less argument)
  | "gt" => some (.greater argument)
  | "eq" => some (.equals argument)
  | "contains" => some (.contains argument)
  | "le_fields" =>
    match argument.items? with
    | some [a, b] => some (.fieldsInOrder a b)
    | _ => none
  | "raises" => some (.raises (argument.plain.toOption.getD ""))
  | _ => none

/-- The length of a text, a collection or a row of bytes. -/
def length : Value → Except Fault Value
  | .str s => .ok (.int s.length)
  | .bytes bs => .ok (.int bs.length)
  | .list xs | .tuple xs | .set xs => .ok (.int xs.length)
  | .dict es => .ok (.int es.length)
  | _ => .error .unsupported

/-- Whether a row occurs in another without a gap. -/
def occurs {α : Type} [BEq α] (row : List α) : List α → Bool
  | [] => row.isEmpty
  | x :: xs => row.isPrefixOf (x :: xs) || occurs row xs

/-- Whether a value is a member of another: an item, a key or a part of a text. -/
def hasMember (v member : Value) : Except Fault Bool :=
  match v, member with
  | .str s, .str t => .ok (occurs t.toList s.toList)
  | .bytes bs, .bytes cs => .ok (occurs cs bs)
  | .bytes bs, .int n => .ok (bs.any fun b => (b.toNat : Int) == n)
  | .list xs, m | .tuple xs, m | .set xs, m => .ok (m.isIn xs)
  | .dict es, m => .ok (Value.hasKey m es)
  | _, _ => .error .unsupported

/-- The part of a value under a key or an index. -/
def part (v key : Value) : Except Fault Value :=
  match v, key with
  | .dict es, k =>
    match Value.lookup? k es with
    | some item => .ok item
    | none => .error .noSuchKey
  | .list xs, .int i | .tuple xs, .int i =>
    let place := if i < 0 then i + xs.length else i
    if place < 0 then .error .noSuchEntry
    else
      match xs[place.toNat]? with
      | some item => .ok item
      | none => .error .noSuchEntry
  | _, _ => .error .unsupported

/-- Whether the condition holds for a value. -/
def holds : ReadyMade → Value → Except Fault Bool
  | always, _ => .ok true
  | never, _ => .ok false
  | returns a, _ => .ok a.truthy
  | lengthAtMost n, v => do Value.isAtMost (← length v) n
  | lengthAtLeast n, v => do Value.isAtLeast (← length v) n
  | less b, v => Value.isLess v b
  | greater b, v => Value.isGreater v b
  | equals w, v => .ok (v.same w)
  | contains m, v => hasMember v m
  | fieldsInOrder a b, v => do
    let first ← part v a
    Value.isAtMost first (← part v b)
  | raises t, _ => .error (.raised t)

/-- The predicate of a condition, known by its identity. -/
def toPredicate (condition : ReadyMade) (identity name : String) (argument : Value) : Predicate :=
  ⟨identity, name, argument, condition.holds⟩

end ReadyMade

end ApiContract
