import ApiContract.Value.Order

/-!
# Schemas

A schema is a tree of nodes. Text, number, truth value, array and object nodes describe the structure
of a value; `nullable` admits null besides, and `refined` adds a condition on values that the base
schema accepts. A tree may be malformed: a child position may hold something that is no node, a bound
may be any value. Compilation (`ApiContract.Validation.Compile`) tells well-formed trees apart.
-/

namespace ApiContract

/-- A condition on values, known by an identity: two predicates are the same function if and only if
their identities are equal. `name` and `argument` say how it was made. -/
structure Predicate where
  identity : String
  name : String
  argument : Value
  holds : Value → Except Fault Bool

/-- What stands in the place of a predicate. -/
inductive Condition where
  | predicate (p : Predicate)
  | value (v : Value)

/-- What every node may carry for documentation and default filling. -/
structure Annotations where
  description : Option String := none
  /-- The value filled in where a field is absent. Null is a default like any other. -/
  default : Option Value := none
  examples : Option (List Value) := none
  /-- A named node is shared between documents under its name. -/
  name : Option String := none

/-- The constraints of a text node. -/
structure StringFields where
  minLength : Option Value := none
  maxLength : Option Value := none
  pattern : Option String := none
  format : Option String := none
  enum : Option (List Value) := none

/-- The constraints of a number node. -/
structure NumberFields where
  minimum : Option Value := none
  maximum : Option Value := none
  exclusiveMinimum : Option Value := none
  exclusiveMaximum : Option Value := none
  multipleOf : Option Value := none
  enum : Option (List Value) := none

/-- The constraints of an array node on the array itself. -/
structure ArrayFields where
  minItems : Option Value := none
  maxItems : Option Value := none
  uniqueItems : Bool := false

/-- The rules of an object node besides its properties. `required` lists the required keys, all
declared ones if it is `none`. An object that admits no additional keys is closed. -/
structure ObjectFields where
  required : Option (List Value) := none
  additional : Bool := false

/-- What a refinement adds to its base. -/
structure Refinement where
  condition : Condition
  message : Value
  constraint : Option String := none

inductive Schema where
  | string (a : Annotations) (fields : StringFields)
  | number (a : Annotations) (fields : NumberFields)
  | integer (a : Annotations) (fields : NumberFields)
  | boolean (a : Annotations)
  | array (a : Annotations) (fields : ArrayFields) (items : Schema)
  | object (a : Annotations) (fields : ObjectFields) (properties : List (Value × Schema))
  | nullable (a : Annotations) (inner : Schema)
  | refined (a : Annotations) (refinement : Refinement) (base : Schema)
  /-- A node with annotations and of no kind. -/
  | bare (a : Annotations)
  /-- Something that is no node. -/
  | foreign (v : Value)

namespace Schema

instance : Inhabited Schema := ⟨.foreign .null⟩

/-- The annotations of a node. -/
def annotations? : Schema → Option Annotations
  | .string a _ | .number a _ | .integer a _ | .boolean a | .array a _ _ | .object a _ _
  | .nullable a _ | .refined a _ _ | .bare a => some a
  | .foreign _ => none

/-- The default that the node itself declares. -/
def default? (s : Schema) : Option Value := s.annotations?.bind (·.default)

/-- The name under which the node is shared. -/
def name? (s : Schema) : Option String := s.annotations?.bind (·.name)

/-- Whether this is a node of a kind that can be compiled. -/
def isNode : Schema → Bool
  | .bare _ | .foreign _ => false
  | _ => true

/-- The schema without the refinements around it. -/
def unwrap : Schema → Schema
  | .refined _ _ base => base.unwrap
  | s => s

/-- The kind of a node; a fault if it has none. -/
def kind : Schema → Except Fault String
  | .string .. => .ok "string"
  | .number .. => .ok "number"
  | .integer .. => .ok "integer"
  | .boolean .. => .ok "boolean"
  | .array .. => .ok "array"
  | .object .. => .ok "object"
  | .nullable .. => .ok "nullable"
  | .refined .. => .ok "refined"
  | .bare _ => .error .kindless
  | .foreign _ => .error .noSuchMember

/-- The name of a schema's type, as messages give it. -/
def typeName : Schema → String
  | .string .. => "StringSchema"
  | .number .. => "NumberSchema"
  | .integer .. => "IntegerSchema"
  | .boolean .. => "BooleanSchema"
  | .array .. => "ArraySchema"
  | .object .. => "ObjectSchema"
  | .nullable .. => "NullableSchema"
  | .refined .. => "RefinedSchema"
  | .bare _ => "BaseSchema"
  | .foreign v => v.typeName

/-- The required keys of an object node, in declaration order. -/
def requiredKeys (fields : ObjectFields) (properties : List (Value × Schema)) : List Value :=
  match fields.required with
  | none => properties.map (·.1)
  | some keys => (properties.map (·.1)).filter fun k => k.isIn keys

/-- The object node behind refinements. -/
def object? (s : Schema) : Option (ObjectFields × List (Value × Schema)) :=
  match s.unwrap with
  | .object _ fields properties => some (fields, properties)
  | _ => none

/-- Binds a property: an equal key keeps its place and gets the new schema. -/
def bindProperty (properties : List (Value × Schema)) (key : Value) (s : Schema) :
    List (Value × Schema) :=
  if properties.any fun p => key.same p.1 then
    properties.map fun p => if key.same p.1 then (p.1, s) else p
  else properties ++ [(key, s)]

/-- The child schema of a key. -/
def property? (key : Value) (properties : List (Value × Schema)) : Option Schema :=
  (properties.find? fun p => key.same p.1).map (·.2)

/-- Texts in the order of their code points. -/
def sortTexts (texts : List String) : List String :=
  texts.mergeSort fun a b => Value.compareText a b != .gt

@[simp] theorem unwrap_refined (a : Annotations) (r : Refinement) (s : Schema) :
    (Schema.refined a r s).unwrap = s.unwrap := rfl

/-- What is left after removing refinements is no refinement. -/
theorem unwrap_ne_refined (s : Schema) (a : Annotations) (r : Refinement) (b : Schema) :
    s.unwrap ≠ .refined a r b := by
  induction s using Schema.rec (motive_2 := fun _ => True) (motive_3 := fun _ => True) with
  | refined _ _ _ ih => simpa using ih
  | nil | cons _ _ _ _ | mk _ _ _ => trivial
  | _ => simp [unwrap]

end Schema

end ApiContract
