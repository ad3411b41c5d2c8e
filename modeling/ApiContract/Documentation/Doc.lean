import ApiContract.Value.Basic

/-!
# Documents

A document is a JSON tree that is built from schemas and from data that users supply. A reference to a
shared component is a node of its own, so that references made by the library are told apart from
texts in user data that look like references.
-/

namespace ApiContract

inductive Doc where
  /-- Data that is written as it stands. -/
  | data (v : Value)
  /-- The text that refers to the component of this name. -/
  | reference (name : String)
  | object (members : List (Value × Doc))
  | array (items : List Doc)

namespace Doc

/-- A text. -/
def text (s : String) : Doc := .data (.str s)

/-- An object with text keys. -/
def record (members : List (String × Doc)) : Doc := .object (members.map fun m => (.str m.1, m.2))

/-- What the text of a reference begins with. -/
def referencePrefix : String := "#/components/schemas/"

mutual
/-- The JSON value of a document. -/
def toValue : Doc → Value
  | .data v => v
  | .reference name => .str (referencePrefix ++ name)
  | .object members => .dict (membersToValues members)
  | .array items => .list (itemsToValues items)
termination_by structural d => d

def itemsToValues : List Doc → List Value
  | [] => []
  | d :: ds => d.toValue :: itemsToValues ds
termination_by structural ds => ds

def membersToValues : List (Value × Doc) → List (Value × Value)
  | [] => []
  | (k, d) :: ds => (k, d.toValue) :: membersToValues ds
termination_by structural ds => ds
end

/-- The members of an object document. -/
def members : Doc → List (Value × Doc)
  | .object ms => ms
  | _ => []

/-- The member of a text key. -/
def get? (d : Doc) (key : String) : Option Doc :=
  (d.members.find? fun m => (Value.str key).same m.1).map (·.2)

/-- Sets members: a key that is there keeps its place and gets the new document, a new key goes to the
end. -/
def setMember (ms : List (Value × Doc)) (key : Value) (d : Doc) : List (Value × Doc) :=
  if ms.any fun m => key.same m.1 then
    ms.map fun m => if key.same m.1 then (m.1, d) else m
  else ms ++ [(key, d)]

/-- Sets a member of an object document by a text key. -/
def set (doc : Doc) (key : String) (d : Doc) : Doc := .object (setMember doc.members (.str key) d)

/-- Sets a member if there is one to set. -/
def setSome (doc : Doc) (key : String) (d : Option Doc) : Doc :=
  match d with
  | some d => doc.set key d
  | none => doc

/-- The document that refers to a component. -/
def referTo (name : String) : Doc := .record [("$ref", .reference name)]

end Doc

end ApiContract
