import ApiContract.Schema.Basic
import ApiContract.Text.LetterCase
import ApiContract.Value.Display

/-!
# Cleaning

Removes the keys that a closed object does not declare, at every depth. Header names match declared
names without regard to case and take the declared spelling.
-/

namespace ApiContract.Schema

mutual
/-- The value without the keys that closed objects do not declare. -/
def clean : Schema → Value → Value
  | .refined _ _ base, v => base.clean v
  | .nullable _ inner, v =>
    match v with
    | .null => .null
    | v => inner.clean v
  | .object _ fields properties, v =>
    match v with
    | .dict entries => .dict <| entries.filterMap fun e =>
      match cleanProperty properties e.1 e.2 with
      | some item => some (e.1, item)
      | none => if fields.additional then some e else none
    | v => v
  | .array _ _ items, v =>
    match v.items? with
    | some xs => .list (xs.map items.clean)
    | none => v
  | _, v => v
termination_by structural s => s

/-- The cleaned item of a declared key. -/
def cleanProperty : List (Value × Schema) → Value → Value → Option Value
  | [], _, _ => none
  | (name, s) :: rest, key, item =>
    if key.same name then some (s.clean item) else cleanProperty rest key item
termination_by structural ps => ps
end

/-- The declared names of an object under their lower-case forms; of two with one form the later
counts. -/
def foldedNames (properties : List (Value × Schema)) : Except Fault (List (String × Value)) := do
  let pairs ← properties.mapM fun p =>
    match p.1 with
    | .str s => .ok (Text.toLower s, p.1)
    | _ => .error .noSuchMember
  return pairs.reverse

/-- Renames header names to the declared spelling. Of two headers that become one name the first keeps
its place and the second its value. -/
def renameHeaders (properties : List (Value × Schema)) (entries : List (Value × Value)) :
    Except Fault (List (Value × Value)) := do
  let names ← foldedNames properties
  let renamed ← entries.mapM fun e => do
    let folded := Text.toLower (← e.1.plain)
    return ((names.lookup folded).getD e.1, e.2)
  return Value.ofEntries renamed

/-- Cleaning of the headers of a request: names at the root are matched without regard to case. -/
def cleanHeaders : Schema → Value → Except Fault Value
  | .refined _ _ base, v => base.cleanHeaders v
  | .nullable _ inner, v =>
    match v with
    | .null => .ok .null
    | v => inner.cleanHeaders v
  | .object a fields properties, v =>
    match v with
    | .dict entries => do
      let entries ← renameHeaders properties entries
      return (Schema.object a fields properties).clean (.dict entries)
    | v => .ok v
  | s, v => .ok (s.clean v)

/-- Cleaning for a target, if one is given. -/
def cleanFor (s : Schema) (target : Option Target) (v : Value) : Except Fault Value :=
  if target == some .header then s.cleanHeaders v else .ok (s.clean v)

end ApiContract.Schema
