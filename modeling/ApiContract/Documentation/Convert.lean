import ApiContract.Documentation.Doc
import ApiContract.Json.Writer
import ApiContract.Normalization.Defaults
import ApiContract.Schema.Equality

/-!
# Documents of schemas

The document of a schema says in JSON Schema what the schema accepts. A refinement cannot be said
there: it is an entry of the base document's `x-refinements`. A node with a name is documented once,
in a `Collector`, and referred to from every place where it stands.

A name that a collector has bound stays bound, also if documenting its schema fails.
-/

namespace ApiContract

/-- The shared components met so far: the schema bound to each name, and the documents that are
finished. -/
structure Collector where
  sources : List (String × Schema) := []
  documents : List (String × Doc) := []

/-- A step of a documentation build: what it has collected stays, also if it fails. -/
abbrev Build := ExceptT Fault (StateM Collector)

namespace Collector

/-- The documents of the components, in the order of their names. -/
def schemas (c : Collector) : List (String × Doc) :=
  (Schema.sortTexts (c.documents.map (·.1))).filterMap fun n => (c.documents.lookup n).map (n, ·)

/-- Binds a name to a schema whose document the given build makes, and gives a reference to it. A
name that is bound must be bound to an equal schema, whose document is not built again. -/
def bind (name : String) (s : Schema) (document : Build Doc) : Build Doc := do
  match (← get).sources.lookup name with
  | some existing =>
    if existing.same s then return .referTo name
    else throw (.documentation (.nameTakenTwice name))
  | none =>
    modify fun c => { c with sources := c.sources ++ [(name, s)] }
    let doc ← document
    modify fun c => { c with documents := c.documents ++ [(name, doc)] }
    return .referTo name

end Collector

namespace Schema

/-- A value that can be written as JSON, under the name that a fault gives it. -/
def serializable (v : Value) (what : String) : Except Fault Doc := do
  if Json.isSerializable v then return .data v
  else throw (.documentation (.notSerializable what (← v.display)))

/-- Adds description, default and examples. -/
def annotate (a : Annotations) (doc : Doc) : Except Fault Doc := do
  let doc := doc.setSome "description" (a.description.map .text)
  let doc ← match a.default with
    | some v => pure (doc.set "default" (← serializable v "Default value"))
    | none => pure doc
  match a.examples with
  | some vs => return doc.set "examples" (← serializable (.list vs) "Examples")
  | none => return doc

def typeDoc (name : String) : Doc := .record [("type", .text name)]

def dataOf (v : Option Value) : Option Doc := v.map .data

def enumOf (vs : Option (List Value)) : Option Doc := vs.map fun vs => .data (.list vs)

def stringDoc (f : StringFields) : Doc :=
  ((((typeDoc "string").setSome "minLength" (dataOf f.minLength)).setSome "maxLength"
    (dataOf f.maxLength)).setSome "pattern" (f.pattern.map .text)).setSome "format"
    (f.format.map .text) |>.setSome "enum" (enumOf f.enum)

def numberDoc (name : String) (f : NumberFields) : Doc :=
  (typeDoc name).setSome "minimum" (dataOf f.minimum)
    |>.setSome "maximum" (dataOf f.maximum)
    |>.setSome "exclusiveMinimum" (dataOf f.exclusiveMinimum)
    |>.setSome "exclusiveMaximum" (dataOf f.exclusiveMaximum)
    |>.setSome "multipleOf" (dataOf f.multipleOf)
    |>.setSome "enum" (enumOf f.enum)

def arrayDoc (f : ArrayFields) (items : Doc) : Doc :=
  let doc : Doc := .record [("type", .text "array"), ("items", items)]
  let doc := (doc.setSome "minItems" (dataOf f.minItems)).setSome "maxItems" (dataOf f.maxItems)
  if f.uniqueItems then doc.set "uniqueItems" (.data (.bool true)) else doc

/-- Whether there is a default on a node, or behind its refinements and nullable wrappers. -/
def hasDefault : Schema → Bool
  | .refined a _ base => a.default.isSome || base.hasDefault
  | .nullable a inner => a.default.isSome || inner.hasDefault
  | s => s.default?.isSome

/-- The walk of the documentation finds a default exactly if the walk of the filling does. -/
theorem hasDefault_eq : ∀ s : Schema, s.hasDefault = s.declaredDefault.isSome
  | .refined a _ base => by rw [hasDefault, declaredDefault, hasDefault_eq base, Option.isSome_or]
  | .nullable a inner => by rw [hasDefault, declaredDefault, hasDefault_eq inner, Option.isSome_or]
  | .string .. | .number .. | .integer .. | .boolean .. | .array .. | .object .. | .bare .. | .foreign .. => rfl

/-- The required keys without those that have a default, which clients may leave out. -/
def documentedRequired (f : ObjectFields) (properties : List (Value × Schema)) : List Value :=
  (requiredKeys f properties).filter fun k => !(property? k properties).any hasDefault

def objectDoc (f : ObjectFields) (properties : List (Value × Schema))
    (documents : List (Value × Doc)) : Doc :=
  let doc : Doc := .record [("type", .text "object"), ("properties", .object documents)]
  let required := documentedRequired f properties
  let doc := if required.isEmpty then doc else doc.set "required" (.data (.list required))
  if f.additional then doc.set "additionalProperties" (.data (.bool true)) else doc

/-- Adds the entry of a refinement to the document of its base. -/
def refinedDoc (r : Refinement) (base : Doc) : Doc :=
  let entry := (Doc.record [("message", .data r.message)]).setSome "constraint"
    (r.constraint.map .text)
  let earlier := match base.get? "x-refinements" with
    | some (.array entries) => entries
    | _ => []
  base.set "x-refinements" (.array (earlier ++ [entry]))

/-- The name under which a node is shared; the empty name is none. -/
def sharedName? (s : Schema) : Option String := s.name?.filter fun n => !n.isEmpty

/-- A reference to a node that is shared under a name, or the document itself. -/
def shareOr (collecting : Bool) (s : Schema) (document : Build Doc) : Build Doc :=
  match if collecting then s.sharedName? else none with
  | some name => Collector.bind name s document
  | none => document

mutual
/-- The document of a node itself, whose parts may be references. -/
def inlineDoc (collecting : Bool) : Schema → Build Doc
  | .string a f => (annotate a (stringDoc f) : Except Fault Doc)
  | .number a f => (annotate a (numberDoc "number" f) : Except Fault Doc)
  | .integer a f => (annotate a (numberDoc "integer" f) : Except Fault Doc)
  | .boolean a => (annotate a (typeDoc "boolean") : Except Fault Doc)
  | .array a f items => do
    let doc ← shareOr collecting items (inlineDoc collecting items)
    (annotate a (arrayDoc f doc) : Except Fault Doc)
  | .object a f properties => do
    let docs ← propertyDocs collecting properties
    (annotate a (objectDoc f properties docs) : Except Fault Doc)
  | .nullable a inner => do
    let doc ← shareOr collecting inner (inlineDoc collecting inner)
    (annotate a (.record [("anyOf", .array [doc, typeDoc "null"])]) : Except Fault Doc)
  | .refined a r base => do
    let doc ← shareOr collecting base (inlineDoc collecting base)
    (annotate a (refinedDoc r doc) : Except Fault Doc)
  | .bare a => throw (.documentation (.noMapping (Schema.bare a).typeName))
  | .foreign v => throw (.documentation (.noMapping v.typeName))
termination_by structural s => s

def propertyDocs (collecting : Bool) : List (Value × Schema) → Build (List (Value × Doc))
  | [] => return []
  | (key, s) :: rest => do
    let doc ← shareOr collecting s (inlineDoc collecting s)
    return (key, doc) :: (← propertyDocs collecting rest)
termination_by structural ps => ps
end

/-- The document of a schema. When collecting, named nodes become references. -/
def document (s : Schema) (collecting : Bool) : Build Doc :=
  shareOr collecting s (inlineDoc collecting s)

/-- The document of a schema on its own, in which nothing is shared. -/
def inlined (s : Schema) : Except Fault Doc := (s.document false |>.run {}).1

end Schema

/-- Shares a schema under a name and gives a reference to it. -/
def Collector.add (name : String) (s : Schema) : Build Doc :=
  Collector.bind name s (s.inlineDoc true)

end ApiContract
