import ApiContract.Proofs.Builds
import ApiContract.Proofs.Parts

/-!
# The children of a node and its document

The kinds of nodes differ in what they are made of, and a document is made of the documents of a node's
children in the same way whatever the kind: the children are documented one after the other, and the node
is assembled from their documents (`inlineDoc_eq`). So a statement about documents has two halves. One is
about rows of builds, the other about `assemble`, which collects nothing.
-/

namespace ApiContract.Schema

/-- The schemas that a node is made of. -/
def children : Schema → List Schema
  | .array _ _ items => [items]
  | .object _ _ ps => ps.map (·.2)
  | .nullable _ inner => [inner]
  | .refined _ _ base => [base]
  | _ => []

/-- Induction on the children of a node. -/
@[elab_as_elim]
theorem childInduction {motive : Schema → Prop}
    (node : ∀ s, (∀ t ∈ s.children, motive t) → motive s) (s : Schema) : motive s := by
  induction s using Schema.induction with
  | array a f items ih => exact node _ (List.forall_mem_singleton.mpr ih)
  | object a f ps ih => exact node _ (List.forall_mem_map.mpr ih)
  | nullable a inner ih => exact node _ (List.forall_mem_singleton.mpr ih)
  | refined a r base ih => exact node _ (List.forall_mem_singleton.mpr ih)
  | _ => exact node _ (List.forall_mem_nil _)

/-- A schema is its root and the nodes of the children. -/
theorem nodes_eq (s : Schema) : s.nodes = s :: s.children.flatMap nodes := by
  cases s with
  | object a f ps => rw [nodes_object, children, List.flatMap_map]
  | array a f items => rw [children, List.flatMap_singleton]; rfl
  | nullable a inner => rw [children, List.flatMap_singleton]; rfl
  | refined a r base => rw [children, List.flatMap_singleton]; rfl
  | _ => rfl

theorem mem_nodes_iff {s x : Schema} : x ∈ s.nodes ↔ x = s ∨ ∃ t ∈ s.children, x ∈ t.nodes := by
  rw [nodes_eq, List.mem_cons, List.mem_flatMap]

/-- The nodes of a child are nodes of the schema. -/
theorem nodes_child_subset {s t : Schema} (ht : t ∈ s.children) : t.nodes ⊆ s.nodes :=
  fun _ hx => mem_nodes_iff.mpr (.inr ⟨t, ht, hx⟩)

/-- The nodes of a node are nodes of the schema. -/
theorem nodes_subset_of_mem {s x : Schema} (hx : x ∈ s.nodes) : x.nodes ⊆ s.nodes := by
  induction s using childInduction with
  | node s ih =>
      rcases mem_nodes_iff.mp hx with rfl | ⟨t, ht, hx⟩
      · exact List.Subset.refl _
      · exact List.Subset.trans (ih t ht hx) (nodes_child_subset ht)

/-- A child has fewer nodes. -/
theorem length_nodes_child_lt {s t : Schema} (ht : t ∈ s.children) : t.nodes.length < s.nodes.length := by
  rw [s.nodes_eq, List.length_cons]
  obtain ⟨before, after, hchildren⟩ := List.append_of_mem ht
  rw [hchildren, List.flatMap_append, List.flatMap_cons, List.length_append, List.length_append]
  omega

/-! ### Documents -/

/-- The document of a node before it is annotated, made of those of its children. -/
def body : Schema → List Doc → Option Doc
  | .string _ f, _ => some (stringDoc f)
  | .number _ f, _ => some (numberDoc "number" f)
  | .integer _ f, _ => some (numberDoc "integer" f)
  | .boolean _, _ => some (typeDoc "boolean")
  | .array _ f _, [doc] => some (arrayDoc f doc)
  | .object _ f ps, docs => some (objectDoc f ps ((ps.map (·.1)).zip docs))
  | .nullable _ _, [doc] => some (.record [("anyOf", .array [doc, typeDoc "null"])])
  | .refined _ r _, [doc] => some (refinedDoc r doc)
  | _, _ => none

/-- The document of a node, made of those of its children. -/
def assemble (s : Schema) (docs : List Doc) : Except Fault Doc :=
  match s.annotations?, s.body docs with
  | some a, some doc => annotate a doc
  | _, _ => .error (.documentation (.noMapping s.typeName))

theorem assemble_eq_ok {s : Schema} {docs : List Doc} {d : Doc} :
    s.assemble docs = .ok d ↔
      ∃ a doc, s.annotations? = some a ∧ s.body docs = some doc ∧ annotate a doc = .ok d := by
  unfold assemble
  cases s.annotations? with
  | none => simp
  | some a =>
      cases s.body docs with
      | none => simp
      | some doc => simp

theorem propertyDocs_eq (collecting : Bool) (ps : List (Value × Schema)) :
    propertyDocs collecting ps =
      ((ps.map (·.2)).mapM fun t => t.document collecting) >>= fun docs =>
        pure ((ps.map (·.1)).zip docs) := by
  induction ps with
  | nil => rfl
  | cons p ps ih =>
      obtain ⟨key, t⟩ := p
      show (do
        let doc ← t.document collecting
        return (key, doc) :: (← propertyDocs collecting ps)) = _
      rw [ih]
      simp only [List.map_cons, List.mapM_cons, bind_assoc, pure_bind, List.zip_cons_cons]

/-- The children are documented one after the other, and the node is assembled from their documents. -/
theorem inlineDoc_eq (collecting : Bool) (s : Schema) :
    s.inlineDoc collecting =
      (s.children.mapM fun t => t.document collecting) >>= fun docs =>
        ((s.assemble docs : Except Fault Doc) : Build Doc) := by
  cases s with
  | array a f items =>
      show (do
        let doc ← items.document collecting
        (annotate a (arrayDoc f doc) : Except Fault Doc) : Build Doc) = _
      simp only [children, List.mapM_cons, List.mapM_nil, bind_assoc, pure_bind]
      rfl
  | object a f ps =>
      show (do
        let docs ← propertyDocs collecting ps
        (annotate a (objectDoc f ps docs) : Except Fault Doc) : Build Doc) = _
      rw [propertyDocs_eq, bind_assoc]
      simp only [pure_bind]
      rfl
  | nullable a inner =>
      show (do
        let doc ← inner.document collecting
        (annotate a (.record [("anyOf", .array [doc, typeDoc "null"])]) : Except Fault Doc) : Build Doc) = _
      simp only [children, List.mapM_cons, List.mapM_nil, bind_assoc, pure_bind]
      rfl
  | refined a r base =>
      show (do
        let doc ← base.document collecting
        (annotate a (refinedDoc r doc) : Except Fault Doc) : Build Doc) = _
      simp only [children, List.mapM_cons, List.mapM_nil, bind_assoc, pure_bind]
      rfl
  | _ => rfl

end ApiContract.Schema
