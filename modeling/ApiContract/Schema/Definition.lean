import ApiContract.Format
import ApiContract.Schema.Basic
import ApiContract.Schema.ComponentName
import ApiContract.Value.Display

/-!
# Schema definitions

A definition is a dictionary that describes a schema in the vocabulary of JSON Schema. Its structure is
checked before a schema is built from it: which keys there may be, and which values they may have.
Of several defects one is reported: the least deep; among these the one whose path is last in the order
of its steps; at one place a value of the wrong type rather than another defect of it.

Main definitions: `Definition.check` and `Definition.build`; `Schema.ofDefinition` is one after the
other.
-/

namespace ApiContract

namespace Definition

/-- A type of values in a definition. -/
inductive Form where
  | string
  | integer
  | number
  | boolean
  | array
  | object
  deriving DecidableEq

namespace Form

def name : Form → String
  | string => "string"
  | integer => "integer"
  | number => "number"
  | boolean => "boolean"
  | array => "array"
  | object => "object"

/-- Whether a value has the type. A number without a fraction is an integer however it is written. -/
def admits : Form → Value → Bool
  | string, .str _ => true
  | integer, .int _ => true
  | integer, .float x => x.isIntegral
  | number, .int _ | number, .float _ => true
  | boolean, .bool _ => true
  | array, .list _ => true
  | object, .dict _ => true
  | _, _ => false

end Form

/-- A rule for the value of a key besides its type. -/
inductive Limit where
  | oneOf (words : List String)
  | componentName
  | atLeast (bound : Int)
  | above (bound : Int)
  | nonEmpty
  | textItems

/-- A key of a definition whose value has no definitions in it: its type and the rules for it. -/
structure Rule where
  form : Option Form
  limits : List Limit := []

/-- The kinds of schema that a definition may have. -/
def kinds : List String := ["string", "number", "integer", "boolean", "array", "object"]

def count : Rule := ⟨some .integer, [.atLeast 0]⟩

/-- The rule of a key, if it is a key of definitions without definitions in its value. -/
def rule? (key : String) : Option Rule :=
  match key with
  | "type" => some ⟨some .string, [.oneOf kinds]⟩
  | "name" => some ⟨some .string, [.componentName]⟩
  | "description" => some ⟨some .string, []⟩
  | "default" => some ⟨none, []⟩
  | "examples" => some ⟨some .array, []⟩
  | "nullable" => some ⟨some .boolean, []⟩
  | "format" => some ⟨some .string, [.oneOf (Format.all.map Format.name)]⟩
  | "minLength" | "maxLength" | "minItems" | "maxItems" => some count
  | "pattern" => some ⟨some .string, []⟩
  | "enum" => some ⟨some .array, [.nonEmpty]⟩
  | "minimum" | "maximum" | "exclusiveMinimum" | "exclusiveMaximum" => some ⟨some .number, []⟩
  | "multipleOf" => some ⟨some .number, [.above 0]⟩
  | "uniqueItems" | "additionalProperties" => some ⟨some .boolean, []⟩
  | "required" => some ⟨some .array, [.textItems]⟩
  | _ => none

/-- Whether definitions have this key. -/
def isKeyword (key : Value) : Bool :=
  match key with
  | .str s => s == "items" || s == "properties" || (rule? s).isSome
  | _ => false

/-- Something wrong in a definition: where, in which words, and whether the value there is of a wrong
type. -/
structure Defect where
  path : List Value
  message : String
  wrongType : Bool

def wrongTypeOf (form : Form) (path : List Value) (v : Value) :
    Except Fault (List Defect) := do
  if form.admits v then return []
  return [⟨path, (← v.display) ++ " is not of type " ++ Text.quoted form.name, true⟩]

def isBelow (orEqual : Bool) (bound : Int) (v : Value) : Bool :=
  if v.isNumber then
    let o := (v.number?.bind fun n => n.compare? (.int bound))
    o == some .lt || (orEqual && o == some .eq)
  else false

/-- The defects of a value under one rule. The flag says that the value is of a wrong type. -/
def Limit.defects (wrongType : Bool) (path : List Value) (v : Value) :
    Limit → Except Fault (List Defect)
  | oneOf words => do
    let found := match v with
      | .str s => words.contains s
      | _ => false
    if found then return []
    let listed ← Value.displayList (words.map .str)
    return [⟨path, (← v.display) ++ " is not one of " ++ listed, wrongType⟩]
  | componentName => do
    match v with
    | .str s =>
      if ComponentName.accepts s then return []
      let shown := Text.quoted s ++ " does not match " ++ Text.quoted ComponentName.pattern
      return [⟨path, shown, wrongType⟩]
    | _ => return []
  | atLeast bound => do
    if isBelow false bound v then
      return [⟨path, (← v.display) ++ s!" is less than the minimum of {bound}", wrongType⟩]
    else return []
  | above bound => do
    if isBelow true bound v then
      return [⟨path, (← v.display) ++ s!" is less than or equal to the minimum of {bound}", wrongType⟩]
    else return []
  | nonEmpty => do
    match v with
    | .list [] => return [⟨path, "[] should be non-empty", wrongType⟩]
    | _ => return []
  | textItems => do
    match v with
    | .list xs =>
      let found ← (xs.mapIdx fun i x => (i, x)).mapM fun (i, x) =>
        wrongTypeOf .string (path ++ [.int i]) x
      return found.flatten
    | _ => return []

/-- The defects of a value under the rule of its key. -/
def Rule.defects (r : Rule) (path : List Value) (v : Value) : Except Fault (List Defect) := do
  let typed ← match r.form with
    | some form => wrongTypeOf form path v
    | none => pure []
  let others ← r.limits.mapM (Limit.defects (!typed.isEmpty) path v)
  return typed ++ others.flatten

/-- The keys that definitions do not have, by their texts. -/
def unexpected (path : List Value) (entries : List (Value × Value)) :
    Except Fault (List Defect) := do
  let keys := (entries.map (·.1)).filter fun k => !isKeyword k
  if keys.isEmpty then return []
  let named ← keys.mapM fun k => return (← k.plain, ← k.display)
  let sorted := named.mergeSort fun a b => Value.compareText a.1 b.1 != .gt
  let verb := if keys.length = 1 then "was" else "were"
  let listed := ", ".intercalate (sorted.map (·.2))
  return [⟨path, s!"Additional properties are not allowed ({listed} {verb} unexpected)", false⟩]

def missingType (path : List Value) (entries : List (Value × Value)) : List Defect :=
  if Value.hasKey (.str "type") entries then []
  else [⟨path, Text.quoted "type" ++ " is a required property", false⟩]

mutual
/-- The defects of a definition. -/
def defects (path : List Value) : Value → Except Fault (List Defect)
  | .dict entries => do
    let own ← unexpected path entries
    return missingType path entries ++ own ++ (← memberDefects path entries)
  | v => wrongTypeOf .object path v
termination_by structural v => v

/-- The defects in the values of a definition's keys. -/
def memberDefects (path : List Value) : List (Value × Value) → Except Fault (List Defect)
  | [] => .ok []
  | (key, v) :: rest => do
    let here ← match key with
      | .str "items" => defects (path ++ [key]) v
      | .str "properties" => propertiesDefects (path ++ [key]) v
      | .str s =>
        match rule? s with
        | some r => r.defects (path ++ [key]) v
        | none => .ok []
      | _ => .ok []
    return here ++ (← memberDefects path rest)
termination_by structural es => es

/-- The defects in the value of `properties`, whose values are definitions. -/
def propertiesDefects (path : List Value) : Value → Except Fault (List Defect)
  | .dict entries => childDefects path entries
  | v => wrongTypeOf .object path v
termination_by structural v => v

def childDefects (path : List Value) : List (Value × Value) → Except Fault (List Defect)
  | [] => .ok []
  | (key, v) :: rest => do
    let here ← defects (path ++ [key]) v
    return here ++ (← childDefects path rest)
termination_by structural es => es
end

/-- The order of two paths by the first step that differs. -/
def comparePaths : List Value → List Value → Except Fault Ordering
  | [], [] => .ok .eq
  | [], _ :: _ => .ok .lt
  | _ :: _, [] => .ok .gt
  | a :: as, b :: bs => do
    if a.same b then comparePaths as bs
    else return if ← Value.isLess a b then .lt else .gt

/-- Whether a defect is to be reported rather than an earlier one. -/
def outranks (d earlier : Defect) : Except Fault Bool := do
  if d.path.length != earlier.path.length then return d.path.length < earlier.path.length
  match ← comparePaths d.path earlier.path with
  | .gt => return true
  | .lt => return false
  | .eq => return d.wrongType && !earlier.wrongType

/-- The defect that is reported. -/
def worst? : List Defect → Except Fault (Option Defect)
  | [] => .ok none
  | d :: ds => do
    let best ← ds.foldlM (fun best d => return if ← outranks d best then d else best) d
    return some best

/-- Refuses a definition with defects. -/
def check (definition : Value) : Except Fault Unit := do
  match ← worst? (← defects [] definition) with
  | none => return
  | some d =>
    let path ← d.path.mapM Value.plain
    throw (.schema (.definitionRefused d.message) (".".intercalate path))

/-! ### Building -/

def get? (entries : List (Value × Value)) (key : String) : Option Value :=
  Value.lookup? (.str key) entries

def set? (entries : List (Value × Value)) (key : String) : Option Value :=
  (get? entries key).filter (!·.isNull)

def text? (entries : List (Value × Value)) (key : String) : Option String :=
  match get? entries key with
  | some (.str s) => some s
  | _ => none

def items? (entries : List (Value × Value)) (key : String) : Option (List Value) :=
  (get? entries key).bind Value.items?

def flag (entries : List (Value × Value)) (key : String) : Bool :=
  (get? entries key).any Value.truthy

/-- Description, default, examples and name as a definition gives them. -/
def annotations (entries : List (Value × Value)) : Annotations where
  description := text? entries "description"
  default := (get? entries "default").filter (!·.isAbsent)
  examples := items? entries "examples"
  name := text? entries "name"

def stringFields (entries : List (Value × Value)) : StringFields where
  minLength := set? entries "minLength"
  maxLength := set? entries "maxLength"
  pattern := text? entries "pattern"
  format := text? entries "format"
  enum := items? entries "enum"

def numberFields (entries : List (Value × Value)) : NumberFields where
  minimum := set? entries "minimum"
  maximum := set? entries "maximum"
  exclusiveMinimum := set? entries "exclusiveMinimum"
  exclusiveMaximum := set? entries "exclusiveMaximum"
  multipleOf := set? entries "multipleOf"
  enum := items? entries "enum"

def arrayFields (entries : List (Value × Value)) : ArrayFields where
  minItems := set? entries "minItems"
  maxItems := set? entries "maxItems"
  uniqueItems := flag entries "uniqueItems"

/-- Properties are optional unless they are listed as required. -/
def objectFields (entries : List (Value × Value)) : ObjectFields where
  required := some ((items? entries "required").getD [])
  additional := flag entries "additionalProperties"

/-- Puts a nullable wrapper around a node where the definition asks for one. Default and name belong to
the wrapper, so that null can be a default. -/
def wrap (entries : List (Value × Value)) (node : Annotations → Schema) : Schema :=
  let a := annotations entries
  if flag entries "nullable" then
    .nullable { default := a.default, name := a.name }
      (node { description := a.description, examples := a.examples })
  else node a

/-- The path to what stands under a key. At the root a key that counts as false leaves the path empty. -/
def step (path : String) (key : Value) : Except Fault String := do
  let k ← key.plain
  if path.isEmpty then return if key.truthy then k else ""
  return path ++ "." ++ k

mutual
/-- The schema of a definition without defects. An array needs the definition of its items. -/
def build (path : String) : Value → Except Fault Schema
  | .dict entries => do
    match text? entries "type" with
    | some "string" => return wrap entries fun a => .string a (stringFields entries)
    | some "number" => return wrap entries fun a => .number a (numberFields entries)
    | some "integer" => return wrap entries fun a => .integer a (numberFields entries)
    | some "boolean" => return wrap entries fun a => .boolean a
    | some "array" =>
      match ← buildItems path entries with
      | some items => return wrap entries fun a => .array a (arrayFields entries) items
      | none => throw (.schema .arrayWithoutItems path)
    | _ =>
      let properties ← buildProperties path entries
      return wrap entries fun a => .object a (objectFields entries) properties
  | _ => throw (.schema .definitionNotMapping path)
termination_by structural v => v

/-- The schema of the items, if there is a definition of them. -/
def buildItems (path : String) : List (Value × Value) → Except Fault (Option Schema)
  | [] => .ok none
  | (key, v) :: rest =>
    match key with
    | .str "items" => do return some (← build (← step path key) v)
    | _ => buildItems path rest
termination_by structural es => es

/-- The schemas of the properties. -/
def buildProperties (path : String) : List (Value × Value) → Except Fault (List (Value × Schema))
  | [] => .ok []
  | (key, v) :: rest =>
    match key with
    | .str "properties" => buildMembers path v
    | _ => buildProperties path rest
termination_by structural es => es

def buildMembers (path : String) : Value → Except Fault (List (Value × Schema))
  | .dict entries => buildChildren path entries
  | _ => .ok []
termination_by structural v => v

def buildChildren (path : String) : List (Value × Value) → Except Fault (List (Value × Schema))
  | [] => .ok []
  | (key, v) :: rest => do
    let s ← build (← step path key) v
    return (key, s) :: (← buildChildren path rest)
termination_by structural es => es
end

end Definition

/-- The schema that a definition describes. -/
def Schema.ofDefinition (definition : Value) : Except Fault Schema := do
  match definition with
  | .dict _ =>
    Definition.check definition
    Definition.build "" definition
  | _ => throw (.schema .definitionNotMapping "")

end ApiContract
