import ApiContract.Validation.Validator
import ApiContract.Value.Display

/-!
# Compilation

Turns a schema into a validator, or finds its first malformed node in declaration order. The fault
names the node by the property names and `items` steps that lead to it.

Main definition: `Schema.compile`.
-/

namespace ApiContract

namespace Schema

def malformed {α : Type} (d : SchemaDefect) (path : String) : Except Fault α :=
  .error (.schema d path)

/-- A count must be an integer of its own right that is not negative. -/
def compileCount (v : Option Value) (label path : String) : Except Fault (Option Nat) :=
  match v with
  | none => .ok none
  | some (.int (.ofNat n)) => .ok (some n)
  | some v => do malformed (.negativeCount label (← v.display)) path

/-- A lower bound must not be above the upper one. -/
def checkBounds (low high : Option Value) (label path : String) : Except Fault Unit :=
  match low, high with
  | some a, some b => do
    if ← Value.isGreater a b then
      malformed (.crossedBounds label (← a.plain) (← b.plain)) path
  | _, _ => .ok ()

def compileFormat (name : Option String) (path : String) : Except Fault (Option Format) :=
  match name with
  | none => .ok none
  | some n =>
    match Format.ofName? n with
    | some f => .ok (some f)
    | none => malformed (.unknownFormat n) path

def compilePattern (source : Option String) (path : String) :
    Except Fault (Option CompiledPattern) :=
  match source with
  | none => .ok none
  | some s =>
    match Regex.parse s with
    | .ok regex => .ok (some ⟨s, regex⟩)
    | .error (.malformed reason place) =>
      let reason := match place with
        | some p => Regex.placedReason s reason p
        | none => reason
      malformed (.invalidPattern s reason) path
    | .error .countTooLarge => .error .outOfRange
    | .error .digitLimit => .error .digitLimit
    | .error .flagConflict => .error (.refused .flagConflict)

def compileString (f : StringFields) (path : String) : Except Fault StringRule := do
  let minLength ← compileCount f.minLength "min_length" path
  let maxLength ← compileCount f.maxLength "max_length" path
  checkBounds f.minLength f.maxLength "String length" path
  let format ← compileFormat f.format path
  let pattern ← compilePattern f.pattern path
  return { minLength, maxLength, pattern, format, enum := f.enum }

/-- A step must be a number of its own right above zero. -/
def checkStep (step : Option Value) (path : String) : Except Fault Unit :=
  match step with
  | none => .ok ()
  | some v => do
    let positive ← if v.isNumber then Value.isGreater v (.int 0) else pure false
    if !positive then malformed (.stepNotPositive (← v.display)) path

def compileNumber (integral : Bool) (f : NumberFields) (path : String) :
    Except Fault NumberRule := do
  checkBounds f.minimum f.maximum "Number range" path
  checkStep f.multipleOf path
  return {
    integral
    minimum := f.minimum
    maximum := f.maximum
    exclusiveMinimum := f.exclusiveMinimum
    exclusiveMaximum := f.exclusiveMaximum
    multipleOf := f.multipleOf
    enum := f.enum }

def compileArray (f : ArrayFields) (path : String) : Except Fault ArrayRule := do
  let minItems ← compileCount f.minItems "min_items" path
  let maxItems ← compileCount f.maxItems "max_items" path
  checkBounds f.minItems f.maxItems "Array size" path
  return { minItems, maxItems, uniqueItems := f.uniqueItems }

/-- The first key that is no text. -/
def checkNames (properties : List (Value × Schema)) (path : String) : Except Fault Unit :=
  match properties.find? fun p => !(p.1 matches .str _) with
  | none => .ok ()
  | some (k, _) => do malformed (.propertyNameNotText (← k.display)) path

/-- Every required key must be declared. -/
def checkRequired (f : ObjectFields) (properties : List (Value × Schema)) (path : String) :
    Except Fault Unit :=
  match f.required with
  | none => .ok ()
  | some keys => do
    let unknown := keys.filter fun k => !properties.any fun p => k.same p.1
    if !unknown.isEmpty then
      malformed (.requiredUndeclared (← Value.displayList unknown)) path

def textKeys (keys : List Value) : List String :=
  keys.filterMap fun
    | .str s => some s
    | _ => none

mutual
/-- The validator of a schema at a path, or its first defect. -/
def compileAt (path : String) : Schema → Except Fault Validator
  | .string _ f => return .string (← compileString f path)
  | .number _ f => return .number (← compileNumber false f path)
  | .integer _ f => return .number (← compileNumber true f path)
  | .boolean _ => return .boolean
  | .array _ f items => do
    let rule ← compileArray f path
    return .array rule (← compileAt (joinPath path "items") items)
  | .object _ f properties => do
    checkNames properties path
    checkRequired f properties path
    let children ← compileProperties path properties
    return .object ⟨textKeys (requiredKeys f properties), f.additional⟩ children
  | .nullable _ inner => return .nullable (← compileAt path inner)
  | .refined _ r base => do
    if base matches .foreign .null then malformed .refinementWithoutBase path
    match r.condition with
    | .value _ => malformed .predicateNotCallable path
    | .predicate p =>
      match r.message with
      | .str m =>
        if m.isEmpty then malformed .refinementWithoutMessage path
        else return .refined p m (← compileAt path base)
      | _ => malformed .refinementWithoutMessage path
  | .bare a => malformed (.unsupportedNode (Schema.bare a).typeName) path
  | .foreign v => malformed (.unsupportedNode v.typeName) path
termination_by structural s => s

def compileProperties (path : String) :
    List (Value × Schema) → Except Fault (List (String × Validator))
  | [] => .ok []
  | (key, s) :: rest => do
    let name := match key with
      | .str n => n
      | _ => ""
    let v ← compileAt (joinPath path name) s
    return (name, v) :: (← compileProperties path rest)
termination_by structural ps => ps
end

/-- The validator of a schema; a fault if the schema is malformed. -/
def compile (s : Schema) : Except Fault Validator := s.compileAt ""

end Schema

end ApiContract
