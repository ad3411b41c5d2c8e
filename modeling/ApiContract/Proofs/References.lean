import ApiContract.Proofs.Annotated
import ApiContract.Proofs.CollectorCalls

/-!
# References in documents

The references of a document are those that the library has put there: data that users supply is left out,
whatever it looks like. A document resolves if it refers to known names only (`Doc.Resolves`). Documents are
put together from parts that resolve, so the document of a schema resolves once the names of its shared
parts are bound (`Schema.Yields.resolves`).
-/

namespace ApiContract

namespace Doc

mutual
/-- The names of the components to which a document refers. -/
def references : Doc → List String
  | .data _ => []
  | .reference name => [name]
  | .object members => referencesAmong members
  | .array items => referencesIn items
termination_by structural d => d

def referencesIn : List Doc → List String
  | [] => []
  | d :: ds => d.references ++ referencesIn ds
termination_by structural ds => ds

def referencesAmong : List (Value × Doc) → List String
  | [] => []
  | (_, d) :: ms => d.references ++ referencesAmong ms
termination_by structural ms => ms
end

theorem referencesIn_eq (ds : List Doc) : referencesIn ds = ds.flatMap references := by
  induction ds with
  | nil => rfl
  | cons d ds ih => rw [List.flatMap_cons, ← ih, referencesIn]

theorem referencesAmong_eq (ms : List (Value × Doc)) :
    referencesAmong ms = ms.flatMap fun m => m.2.references := by
  induction ms with
  | nil => rfl
  | cons m ms ih =>
      obtain ⟨key, d⟩ := m
      rw [List.flatMap_cons, ← ih, referencesAmong]

/-- A document refers to known names only. -/
def Resolves (Known : String → Prop) (d : Doc) : Prop := ∀ name ∈ d.references, Known name

variable {Known : String → Prop} {doc d : Doc}

theorem resolves_data (v : Value) : (Doc.data v).Resolves Known := List.forall_mem_nil _

theorem resolves_text (s : String) : (Doc.text s).Resolves Known := resolves_data _

theorem resolves_object {ms : List (Value × Doc)} :
    (Doc.object ms).Resolves Known ↔ ∀ m ∈ ms, m.2.Resolves Known := by
  rw [Resolves, references, referencesAmong_eq]
  exact (forall_mem_flatMap_iff fun _ _ => Iff.rfl).symm

theorem resolves_array {ds : List Doc} : (Doc.array ds).Resolves Known ↔ ∀ d ∈ ds, d.Resolves Known := by
  rw [Resolves, references, referencesIn_eq]
  exact (forall_mem_flatMap_iff fun _ _ => Iff.rfl).symm

theorem resolves_record {ms : List (String × Doc)} :
    (Doc.record ms).Resolves Known ↔ ∀ m ∈ ms, m.2.Resolves Known := by
  rw [record, resolves_object, List.forall_mem_map]

theorem resolves_referTo {name : String} : (Doc.referTo name).Resolves Known ↔ Known name := by
  rw [referTo, resolves_record, List.forall_mem_singleton]
  exact List.forall_mem_singleton

theorem Resolves.members (h : doc.Resolves Known) : ∀ m ∈ doc.members, m.2.Resolves Known := by
  cases doc with
  | object ms => exact resolves_object.mp h
  | _ => exact List.forall_mem_nil _

theorem Resolves.get? (h : doc.Resolves Known) {key : String} (hd : doc.get? key = some d) :
    d.Resolves Known := by
  obtain ⟨m, hm, rfl⟩ := Option.map_eq_some_iff.mp hd
  exact h.members m (List.mem_of_find?_eq_some hm)

theorem Resolves.set (h : doc.Resolves Known) {key : String} (hd : d.Resolves Known) :
    (doc.set key d).Resolves Known := by
  refine resolves_object.mpr ?_
  rw [setMember]
  split
  · refine List.forall_mem_map.mpr fun m hm => ?_
    split
    · exact hd
    · exact h.members m hm
  · exact List.forall_mem_append.mpr ⟨h.members, List.forall_mem_singleton.mpr hd⟩

theorem Resolves.setSome (h : doc.Resolves Known) {key : String} {d : Option Doc}
    (hd : ∀ e ∈ d, e.Resolves Known) : (doc.setSome key d).Resolves Known := by
  cases d with
  | none => exact h
  | some d => exact h.set (hd d rfl)

/-- Data can be set without harm. -/
theorem Resolves.setData {α : Type} (h : doc.Resolves Known) {key : String} {x : Option α} {f : α → Value} :
    (doc.setSome key (x.map fun a => .data (f a))).Resolves Known := by
  refine h.setSome fun e he => ?_
  obtain ⟨a, -, rfl⟩ := Option.map_eq_some_iff.mp he
  exact resolves_data _

end Doc

namespace Schema

variable {Known : String → Prop}

theorem resolves_typeDoc (name : String) : (typeDoc name).Resolves Known :=
  Doc.resolves_record.mpr (List.forall_mem_singleton.mpr (Doc.resolves_text name))

theorem resolves_annotated (a : Annotations) {doc : Doc} (h : doc.Resolves Known) :
    (annotated a doc).Resolves Known :=
  h.setData.setData.setData

theorem resolves_arrayDoc (f : ArrayFields) {doc : Doc} (h : doc.Resolves Known) :
    (arrayDoc f doc).Resolves Known := by
  have hbase : (Doc.record [("type", .text "array"), ("items", doc)]).Resolves Known :=
    Doc.resolves_record.mpr (List.forall_mem_cons.mpr ⟨Doc.resolves_text _, List.forall_mem_singleton.mpr h⟩)
  unfold arrayDoc
  dsimp only
  split
  · exact (hbase.setData.setData).set (Doc.resolves_data _)
  · exact hbase.setData.setData

theorem resolves_objectDoc (f : ObjectFields) (ps : List (Value × Schema)) {docs : List (Value × Doc)}
    (h : ∀ d ∈ docs, d.2.Resolves Known) : (objectDoc f ps docs).Resolves Known := by
  have hbase : (Doc.record [("type", .text "object"), ("properties", .object docs)]).Resolves Known :=
    Doc.resolves_record.mpr (List.forall_mem_cons.mpr
      ⟨Doc.resolves_text _, List.forall_mem_singleton.mpr (Doc.resolves_object.mpr h)⟩)
  unfold objectDoc
  dsimp only
  have hrequired : (if (documentedRequired f ps).isEmpty then
      Doc.record [("type", .text "object"), ("properties", .object docs)] else
      (Doc.record [("type", .text "object"), ("properties", .object docs)]).set "required"
        (.data (.list (documentedRequired f ps)))).Resolves Known := by
    split
    · exact hbase
    · exact hbase.set (Doc.resolves_data _)
  split
  · exact hrequired.set (Doc.resolves_data _)
  · exact hrequired

theorem resolves_refinedDoc (r : Refinement) {doc : Doc} (h : doc.Resolves Known) :
    (refinedDoc r doc).Resolves Known := by
  have hentry : ((Doc.record [("message", .data r.message)]).setSome "constraint"
      (r.constraint.map .text)).Resolves Known :=
    (Doc.resolves_record.mpr (List.forall_mem_singleton.mpr (Doc.resolves_data _))).setData
  unfold refinedDoc
  dsimp only
  refine h.set (Doc.resolves_array.mpr (List.forall_mem_append.mpr
    ⟨?_, List.forall_mem_singleton.mpr hentry⟩))
  split
  · rename_i entries hentries
    exact Doc.resolves_array.mp (h.get? hentries)
  · exact List.forall_mem_nil _

/-- A node refers to what its children refer to. -/
theorem resolves_assemble {s : Schema} {docs : List Doc} {d : Doc} (h : s.assemble docs = .ok d)
    (hdocs : ∀ doc ∈ docs, doc.Resolves Known) : d.Resolves Known := by
  obtain ⟨a, doc, -, hbody, hannotate⟩ := assemble_eq_ok.mp h
  obtain ⟨-, rfl⟩ := annotate_eq_ok.mp hannotate
  refine resolves_annotated a ?_
  unfold body at hbody
  split at hbody
  · cases hbody
    exact (resolves_typeDoc _).setData.setData.setData.setData.setData
  · cases hbody
    exact (resolves_typeDoc _).setData.setData.setData.setData.setData.setData
  · cases hbody
    exact (resolves_typeDoc _).setData.setData.setData.setData.setData.setData
  · cases hbody
    exact resolves_typeDoc _
  · cases hbody
    exact resolves_arrayDoc _ (List.forall_mem_singleton.mp hdocs)
  · cases hbody
    exact resolves_objectDoc _ _ fun d hd => hdocs d.2 (List.of_mem_zip hd).2
  · cases hbody
    refine Doc.resolves_record.mpr (List.forall_mem_singleton.mpr (Doc.resolves_array.mpr ?_))
    exact List.forall_mem_cons.mpr ⟨List.forall_mem_singleton.mp hdocs,
      List.forall_mem_singleton.mpr (resolves_typeDoc _)⟩
  · cases hbody
    exact resolves_refinedDoc _ (List.forall_mem_singleton.mp hdocs)
  · cases hbody

/-- A schema is bound to the name. -/
def Taken (source? : String → Option Schema) (name : String) : Prop := (source? name).isSome = true

variable {source? : String → Option Schema}

theorem BoundTo.taken {name : String} {t : Schema} (h : BoundTo source? name t) : Taken source? name := by
  obtain ⟨u, hu, -⟩ := h
  exact Option.isSome_iff_exists.mpr ⟨u, hu⟩

/-- The document of a schema refers to names that are bound. -/
theorem Yields.resolves {s : Schema} {d : Doc} (h : s.Yields d) (hparts : s.PartsBound source?) :
    d.Resolves (Taken source?) := by
  induction s using childInduction generalizing d with
  | node s ih =>
      obtain ⟨docs, hdocs, hassemble⟩ := h.children
      refine resolves_assemble hassemble fun doc hdoc => ?_
      obtain ⟨t, ht, hshown⟩ := exists_left_of_forall₂ hdocs hdoc
      have hbound := hparts.child ht
      rcases hshown with ⟨name, hname, rfl⟩ | ⟨hown, hyields⟩
      · exact Doc.resolves_referTo.mpr (hbound.shared name hname).taken
      · exact ih t ht hyields (hbound.own hown)

/-- What stands in the place of a schema refers to names that are bound. -/
theorem ShownAs.resolves {s : Schema} {d : Doc} (h : s.ShownAs d) (hbound : s.Bound source?) :
    d.Resolves (Taken source?) := by
  rcases h with ⟨name, hname, rfl⟩ | ⟨hown, hyields⟩
  · exact Doc.resolves_referTo.mpr (hbound.shared name hname).taken
  · exact hyields.resolves (hbound.own hown)

end Schema

end ApiContract
