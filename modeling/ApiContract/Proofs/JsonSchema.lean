import ApiContract.Proofs.JsonEquality
import ApiContract.Regex.Matcher
import ApiContract.Regex.Parser

/-!
# JSON Schema

When an instance is valid against a schema document, for the keywords of the 2020-12 vocabularies that
documents of schemas are made of. A keyword looks at instances of one type and holds for all others; an
argument that is not of the form that its keyword asks for is met by no instance that the keyword looks
at. Patterns are searched for in the text, formats are asserted. The keywords of the vocabularies that no
such document has (`unused`) are not interpreted: with one of them a document is valid for nothing. Any other
keyword, such as `description`, is an annotation and holds for every instance.

A document is valid for an instance if each of its keywords holds (`valid_dict`).
-/

namespace ApiContract.JsonSchema

open Value

/-! ### Parts of an instance -/

/-- A text meets a condition; any other instance does. -/
def onText (v : Value) (meets : String → Bool) : Bool :=
  match v with
  | .str s => meets s
  | _ => true

def onNumber (v : Value) (meets : Number → Bool) : Bool :=
  match v.jsonNumber? with
  | some n => meets n
  | none => true

def onArray (v : Value) (meets : List Value → Bool) : Bool :=
  match v with
  | .list xs => meets xs
  | _ => true

def onObject (v : Value) (meets : List (Value × Value) → Bool) : Bool :=
  match v with
  | .dict entries => meets entries
  | _ => true

/-! ### Arguments of keywords -/

/-- The natural number that is given as a count. -/
def count? : Value → Option Nat
  | .int (.ofNat n) => some n
  | _ => none

def text? : Value → Option String
  | .str s => some s
  | _ => none

def array? : Value → Option (List Value)
  | .list xs => some xs
  | _ => none

/-- The type names that are given, one or several. -/
def typeNames : Value → List String
  | .str name => [name]
  | .list names => names.filterMap text?
  | _ => []

/-! ### Assertions -/

/-- Whether an instance is of the type of a name. An integer is a number without a fraction. -/
def hasType (name : String) : Value → Bool
  | .null => name == "null"
  | .bool _ => name == "boolean"
  | .int _ => name == "integer" || name == "number"
  | .float x => name == "number" || (name == "integer" && x.isIntegral)
  | .str _ => name == "string"
  | .list _ => name == "array"
  | .dict _ => name == "object"
  | _ => false

/-- The exact value of a finite number as an integer over a positive natural. -/
def ratio? : Number → Option (Int × Nat)
  | .int n => some (n, 1)
  | .float x => x.ratio?

/-- Whether a number divided by a step is an integer. -/
def isMultiple (n step : Number) : Bool :=
  match ratio? n, ratio? step with
  | some (p, q), some (r, s) => r != 0 && (p * s) % (q * r) == 0
  | _, _ => false

/-- No two items are equal. -/
def allDiffer : List Value → Bool
  | [] => true
  | x :: xs => xs.all (fun y => !x.jsonEqual y) && allDiffer xs

/-- The keywords that refer to other documents, apply documents or assert something, and that are not
interpreted here. -/
def unused : List String :=
  ["$ref", "$dynamicRef", "allOf", "oneOf", "not", "if", "then", "else", "dependentSchemas", "prefixItems",
    "contains", "minContains", "maxContains", "patternProperties", "propertyNames", "unevaluatedItems",
    "unevaluatedProperties", "const", "minProperties", "maxProperties", "dependentRequired"]

/-- Whether a pattern, given by its text, is found in a text. -/
def isFound (source s : String) : Bool :=
  match Regex.parse source with
  | .ok regex => regex.search s
  | .error _ => false

/-- Whether an instance meets a keyword whose argument holds no document. -/
def asserts (keyword : String) (argument v : Value) : Bool :=
  match keyword with
  | "type" => (typeNames argument).any (hasType · v)
  | "enum" => (array? argument).any fun vs => vs.any (v.jsonEqual ·)
  | "minLength" => onText v fun s => (count? argument).any (· ≤ s.length)
  | "maxLength" => onText v fun s => (count? argument).any (s.length ≤ ·)
  | "pattern" => onText v fun s => (text? argument).any (isFound · s)
  | "format" => onText v fun s => (text? argument).any fun name => (Format.ofName? name).all (·.accepts s)
  | "minimum" => onNumber v fun n => argument.jsonNumber?.any fun b =>
      n.compare? b == some .gt || n.compare? b == some .eq
  | "maximum" => onNumber v fun n => argument.jsonNumber?.any fun b =>
      n.compare? b == some .lt || n.compare? b == some .eq
  | "exclusiveMinimum" => onNumber v fun n => argument.jsonNumber?.any fun b => n.compare? b == some .gt
  | "exclusiveMaximum" => onNumber v fun n => argument.jsonNumber?.any fun b => n.compare? b == some .lt
  | "multipleOf" => onNumber v fun n => argument.jsonNumber?.any (isMultiple n)
  | "minItems" => onArray v fun xs => (count? argument).any (· ≤ xs.length)
  | "maxItems" => onArray v fun xs => (count? argument).any (xs.length ≤ ·)
  | "uniqueItems" => onArray v fun xs =>
      match argument with
      | .bool unique => !unique || allDiffer xs
      | _ => false
  | "required" => onObject v fun entries => (array? argument).any fun keys => keys.all (hasKey · entries)
  | other => !unused.contains other

/-! ### Validity -/

/-- The names that the `properties` among the members of a document have. -/
def propertyNames (members : List (Value × Value)) : List Value :=
  match lookup? (.str "properties") members with
  | some (.dict documents) => documents.map (·.1)
  | _ => []

mutual
/-- Whether an instance is valid against a document. -/
def valid : Value → Value → Bool
  | .bool b, _ => b
  | .dict members, v => allHold (propertyNames members) members v
  | _, _ => false
termination_by structural d => d

/-- Every keyword holds; `declared` are the names of the properties of the document. -/
def allHold (declared : List Value) : List (Value × Value) → Value → Bool
  | [], _ => true
  | (keyword, argument) :: rest, v =>
    (match keyword with
      | .str "properties" => validProperties argument v
      | .str "additionalProperties" => onObject v fun entries =>
          entries.all fun e => declared.any (e.1.same ·) || valid argument e.2
      | .str "items" => onArray v fun xs => xs.all fun x => valid argument x
      | .str "anyOf" => validAny argument v
      | .str name => asserts name argument v
      | _ => true) && allHold declared rest v
termination_by structural members => members

def validProperties : Value → Value → Bool
  | .dict documents, v => onObject v fun entries => allValid documents entries
  | _, v => onObject v fun _ => false
termination_by structural d => d

/-- Each property that is there is valid against its document. -/
def allValid : List (Value × Value) → List (Value × Value) → Bool
  | [], _ => true
  | (name, document) :: rest, entries =>
    (lookup? name entries).all (fun v => valid document v) && allValid rest entries
termination_by structural documents => documents

def validAny : Value → Value → Bool
  | .list documents, v => anyValid documents v
  | _, _ => false
termination_by structural d => d

def anyValid : List Value → Value → Bool
  | [], _ => false
  | document :: rest, v => valid document v || anyValid rest v
termination_by structural documents => documents
end

/-- Whether an instance meets a keyword of a document that declares the given properties. -/
def holds (declared : List Value) (keyword argument v : Value) : Bool :=
  match keyword with
  | .str "properties" => validProperties argument v
  | .str "additionalProperties" => onObject v fun entries =>
      entries.all fun e => declared.any (e.1.same ·) || valid argument e.2
  | .str "items" => onArray v fun xs => xs.all fun x => valid argument x
  | .str "anyOf" => validAny argument v
  | .str name => asserts name argument v
  | _ => true

theorem allHold_eq (declared : List Value) (members : List (Value × Value)) (v : Value) :
    allHold declared members v = members.all fun m => holds declared m.1 m.2 v := by
  induction members with
  | nil => rfl
  | cons m members ih =>
      obtain ⟨keyword, argument⟩ := m
      rw [List.all_cons, ← ih]
      rfl

/-- An instance is valid against a document if each keyword holds. -/
theorem valid_dict (members : List (Value × Value)) (v : Value) :
    valid (.dict members) v = members.all fun m => holds (propertyNames members) m.1 m.2 v :=
  allHold_eq _ members v

example : valid (.dict [(.str "type", .str "integer"), (.str "minimum", .int 1), (.str "description", .str "")])
    (.int 0) = false := by decide +kernel

theorem validProperties_dict (documents entries : List (Value × Value)) :
    validProperties (.dict documents) (.dict entries) =
      documents.all fun d => (lookup? d.1 entries).all fun v => valid d.2 v := by
  show allValid documents entries = _
  induction documents with
  | nil => rfl
  | cons d documents ih =>
      obtain ⟨name, document⟩ := d
      rw [List.all_cons, ← ih]
      rfl

theorem validAny_list (documents : List Value) (v : Value) :
    validAny (.list documents) v = documents.any fun d => valid d v := by
  show anyValid documents v = _
  induction documents with
  | nil => rfl
  | cons d documents ih =>
      rw [List.any_cons, ← ih]
      rfl

theorem allDiffer_iff {xs : List Value} :
    allDiffer xs = true ↔ xs.Pairwise fun x y => x.jsonEqual y = false := by
  induction xs with
  | nil => simp [allDiffer]
  | cons x xs ih => simp [allDiffer, ih]

end ApiContract.JsonSchema
