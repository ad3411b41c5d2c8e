import ApiContract.Schema.Basic
import ApiContract.Value.Display

/-!
# Building object schemas

Every property of an object is required unless it is listed as optional, and only declared properties
can be listed.
-/

namespace ApiContract.Schema

/-- Inserts a value before the first that is greater; a fault if two values have no order. -/
def insertSorted (v : Value) : List Value → Except Fault (List Value)
  | [] => .ok [v]
  | w :: ws => do
    if ← Value.isLess v w then return v :: w :: ws
    else return w :: (← insertSorted v ws)

/-- Values in ascending order. -/
def sortValues (vs : List Value) : Except Fault (List Value) :=
  vs.foldlM (fun sorted v => insertSorted v sorted) []

/-- Each value once, at its first place. -/
def distinct (vs : List Value) : List Value :=
  vs.foldl (fun seen v => if v.isIn seen then seen else seen ++ [v]) []

/-- A value that can be a key. -/
def isKey : Value → Bool
  | .list _ | .dict _ | .set _ => false
  | _ => true

/-- An object schema in which all properties but the listed ones are required. -/
def objectWithOptional (a : Annotations) (additional : Bool) (properties : List (Value × Schema))
    (optional : List Value) : Except Fault Schema := do
  unless optional.all isKey do throw .unsupported
  let keys := properties.map (·.1)
  let unknown := distinct (optional.filter fun k => !k.isIn keys)
  unless unknown.isEmpty do
    let names ← Value.displayList (← sortValues unknown)
    throw (.schema (.optionalUndeclared names) "")
  let required := keys.filter fun k => !k.isIn optional
  return .object a { required := some required, additional } properties

end ApiContract.Schema
