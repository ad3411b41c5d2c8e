import ApiContract.Schema.Basic

/-!
# Equality of schemas

Two schemas are the same if they are nodes of one kind with equal fields. Values in fields are compared
by `Value.same`, properties without regard to their order, and predicates by identity.
-/

namespace ApiContract

/-- Equality of two fields that may be left out. -/
def sameOption {α : Type} (same : α → α → Bool) : Option α → Option α → Bool
  | none, none => true
  | some a, some b => same a b
  | _, _ => false

def sameValues : Option Value → Option Value → Bool := sameOption Value.same

def sameLists : Option (List Value) → Option (List Value) → Bool :=
  sameOption Value.sameItems

def Annotations.same (a b : Annotations) : Bool :=
  a.description == b.description && sameValues a.default b.default &&
    sameLists a.examples b.examples && a.name == b.name

def StringFields.same (a b : StringFields) : Bool :=
  sameValues a.minLength b.minLength && sameValues a.maxLength b.maxLength &&
    a.pattern == b.pattern && a.format == b.format && sameLists a.enum b.enum

def NumberFields.same (a b : NumberFields) : Bool :=
  sameValues a.minimum b.minimum && sameValues a.maximum b.maximum &&
    sameValues a.exclusiveMinimum b.exclusiveMinimum &&
    sameValues a.exclusiveMaximum b.exclusiveMaximum &&
    sameValues a.multipleOf b.multipleOf && sameLists a.enum b.enum

def ArrayFields.same (a b : ArrayFields) : Bool :=
  sameValues a.minItems b.minItems && sameValues a.maxItems b.maxItems &&
    a.uniqueItems == b.uniqueItems

def ObjectFields.same (a b : ObjectFields) : Bool :=
  sameLists a.required b.required && a.additional == b.additional

def Condition.same : Condition → Condition → Bool
  | .predicate p, .predicate q => p.identity == q.identity
  | .value v, .value w => v.same w
  | _, _ => false

def Refinement.same (a b : Refinement) : Bool :=
  a.condition.same b.condition && a.message.same b.message && a.constraint == b.constraint

namespace Schema

mutual
/-- Equality of schemas. -/
def same : Schema → Schema → Bool
  | .string a f, .string b g => a.same b && f.same g
  | .number a f, .number b g => a.same b && f.same g
  | .integer a f, .integer b g => a.same b && f.same g
  | .boolean a, .boolean b => a.same b
  | .array a f s, .array b g t => a.same b && f.same g && s.same t
  | .object a f ps, .object b g qs =>
    a.same b && f.same g && ps.length == qs.length && sameProperties ps qs
  | .nullable a s, .nullable b t => a.same b && s.same t
  | .refined a r s, .refined b q t => a.same b && r.same q && s.same t
  | .bare a, .bare b => a.same b
  | .foreign v, .foreign w => v.same w
  | _, _ => false
termination_by structural s => s

/-- Every property of the first list has an equal one in the second. -/
def sameProperties : List (Value × Schema) → List (Value × Schema) → Bool
  | [], _ => true
  | (k, s) :: rest, qs => qs.any (fun q => k.same q.1 && s.same q.2) && sameProperties rest qs
termination_by structural ps => ps
end

end Schema

end ApiContract
