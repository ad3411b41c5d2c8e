import ApiContract.Proofs.Annotated
import ApiContract.Proofs.CollectorCalls
import ApiContract.Proofs.Expansion
import ApiContract.Proofs.SchemaEquality

/-!
# Shared and inlined documents

Referencing and inlining describe the same schema. If names stand for one schema each (`Schema.NamedBy`), then
the document of a schema with references, expanded by what the collector lists, **is** the document without
(`inlined_eq_expand`). Expansion goes along with assembling a node (`expandsTo_assemble`), and a reference
expands to the document of the very part that it stands for.
-/

namespace ApiContract

/-- The document of a schema and what it expands to. -/
structure Doc.ExpandsTo (resolve : String → Doc) (doc doc' : Doc) : Prop where
  isObject : ∃ ms, doc = .object ms
  differ : doc.KeysDiffer
  listed : ∀ d, doc.get? "x-refinements" = some d → ∃ ds, d = .array ds
  eq : doc.expandWith resolve = doc'

namespace Doc.ExpandsTo

variable {resolve : String → Doc} {doc doc' : Doc} {key : String}

theorem set (h : doc.ExpandsTo resolve doc') (hkey : key ≠ "$ref" ∧ key ≠ "x-refinements") (d : Doc) :
    (doc.set key d).ExpandsTo resolve (doc'.set key (d.expandWith resolve)) where
  isObject := ⟨_, rfl⟩
  differ := h.differ.set key d
  listed := fun e he => h.listed e (by rwa [get?_set_of_ne _ _ hkey.2.symm] at he)
  eq := by
    obtain ⟨ms, rfl⟩ := h.isObject
    rw [expandWith_set h.differ hkey.1 hkey.2, h.eq]

/-- Data is left alone. -/
theorem setData (h : doc.ExpandsTo resolve doc') (hkey : key ≠ "$ref" ∧ key ≠ "x-refinements") {α : Type}
    {x : Option α} {f : α → Value} :
    (doc.setSome key (x.map fun a => .data (f a))).ExpandsTo resolve
      (doc'.setSome key (x.map fun a => .data (f a))) := by
  cases x with
  | none => exact h
  | some a => exact h.set hkey (.data (f a))

theorem setIf (h : doc.ExpandsTo resolve doc') (hkey : key ≠ "$ref" ∧ key ≠ "x-refinements") (b : Bool)
    (v : Value) :
    (if b then doc.set key (.data v) else doc).ExpandsTo resolve
      (if b then doc'.set key (.data v) else doc') := by
  split
  · exact h.set hkey (.data v)
  · exact h

/-- Nothing has been set yet. -/
theorem empty (resolve : String → Doc) : (Doc.record []).ExpandsTo resolve (.record []) where
  isObject := ⟨[], rfl⟩
  differ := List.nodup_nil
  listed := fun _ h => by cases h
  eq := rfl

end Doc.ExpandsTo

namespace Schema

open Doc (ExpandsTo)

variable {resolve : String → Doc}

/-- The entry of a refinement in a document. -/
def refinementEntry (r : Refinement) : Doc :=
  (Doc.record [("message", .data r.message)]).setSome "constraint" (r.constraint.map .text)

theorem refinedDoc_eq (r : Refinement) (doc : Doc) :
    refinedDoc r doc = doc.set "x-refinements" (.array (doc.refinements ++ [refinementEntry r])) := rfl

theorem expandsTo_refinementEntry (r : Refinement) :
    (refinementEntry r).ExpandsTo resolve (refinementEntry r) := by
  have hmessage : ((Doc.record []).set "message" (.data r.message)).ExpandsTo resolve
      ((Doc.record []).set "message" (.data r.message)) := (ExpandsTo.empty resolve).set (by decide) _
  exact hmessage.setData (by decide)

theorem expandsTo_typeDoc (name : String) : (typeDoc name).ExpandsTo resolve (typeDoc name) := by
  have htype : ((Doc.record []).set "type" (.text name)).ExpandsTo resolve
      ((Doc.record []).set "type" (.text name)) := (ExpandsTo.empty resolve).set (by decide) _
  exact htype

theorem expandsTo_annotated {doc doc' : Doc} (h : doc.ExpandsTo resolve doc') (a : Annotations) :
    (annotated a doc).ExpandsTo resolve (annotated a doc') :=
  h.setData (by decide) |>.setData (by decide) |>.setData (by decide)

theorem expandsTo_stringDoc (f : StringFields) : (stringDoc f).ExpandsTo resolve (stringDoc f) :=
  (expandsTo_typeDoc _).setData (by decide)
    |>.setData (by decide) |>.setData (by decide) |>.setData (by decide) |>.setData (by decide)

theorem expandsTo_numberDoc (name : String) (f : NumberFields) :
    (numberDoc name f).ExpandsTo resolve (numberDoc name f) :=
  (expandsTo_typeDoc _).setData (by decide)
    |>.setData (by decide) |>.setData (by decide) |>.setData (by decide)
    |>.setData (by decide) |>.setData (by decide)

theorem expandsTo_arrayDoc (f : ArrayFields) {doc doc' : Doc} (h : doc.ExpandsTo resolve doc') :
    (arrayDoc f doc).ExpandsTo resolve (arrayDoc f doc') := by
  have hitems : ((typeDoc "array").set "items" doc).ExpandsTo resolve ((typeDoc "array").set "items" doc') :=
    h.eq ▸ (expandsTo_typeDoc _).set (by decide) doc
  exact hitems.setData (by decide) |>.setData (by decide) |>.setIf (by decide) _ _

/-- The properties of an object are no references, whatever they are called. -/
theorem expandWith_properties {docs : List Doc} (h : ∀ doc ∈ docs, ∃ ms, doc = .object ms) (keys : List Value) :
    (Doc.object (keys.zip docs)).expandWith resolve = .object (keys.zip (docs.map (Doc.expandWith resolve))) := by
  have htarget : (Doc.object (keys.zip docs)).target? = none := by
    rw [Doc.target?]
    split
    · rename_i name hname
      obtain ⟨m, hm, hreference⟩ := Option.map_eq_some_iff.mp hname
      obtain ⟨ms, hms⟩ := h m.2 (List.of_mem_zip (List.mem_of_find?_eq_some hm)).2
      rw [hreference] at hms
      cases hms
    · rfl
  rw [Doc.expandWith_of_target?_eq_none htarget, List.zip_map_right]
  rfl

theorem expandsTo_objectDoc (f : ObjectFields) (ps : List (Value × Schema)) {docs : List Doc}
    (h : ∀ doc ∈ docs, ∃ ms, doc = .object ms) (keys : List Value) :
    (objectDoc f ps (keys.zip docs)).ExpandsTo resolve
      (objectDoc f ps (keys.zip (docs.map (Doc.expandWith resolve)))) := by
  have hbase : ((typeDoc "object").set "properties" (.object (keys.zip docs))).ExpandsTo resolve
      ((typeDoc "object").set "properties" (.object (keys.zip (docs.map (Doc.expandWith resolve))))) :=
    expandWith_properties h keys ▸ (expandsTo_typeDoc _).set (by decide) _
  refine ExpandsTo.setIf ?_ (by decide) _ _
  split
  · exact hbase
  · exact hbase.set (by decide) (.data (.list (documentedRequired f ps)))

theorem expandsTo_refinedDoc (r : Refinement) {doc doc' : Doc} (h : doc.ExpandsTo resolve doc') :
    (refinedDoc r doc).ExpandsTo resolve (refinedDoc r doc') where
  isObject := ⟨_, rfl⟩
  differ := h.differ.set _ _
  listed := fun d hd => by
    rw [refinedDoc_eq, Doc.get?_set_self] at hd
    exact ⟨_, (Option.some.inj hd).symm⟩
  eq := by
    obtain ⟨ms, rfl⟩ := h.isObject
    rw [refinedDoc_eq, Doc.expandWith_refinements h.differ h.listed, h.eq, List.map_singleton,
      (expandsTo_refinementEntry r).eq, refinedDoc_eq]

theorem expandsTo_nullable {doc doc' : Doc} (h : doc.ExpandsTo resolve doc') :
    (Doc.record [("anyOf", .array [doc, typeDoc "null"])]).ExpandsTo resolve
      (.record [("anyOf", .array [doc', typeDoc "null"])]) := by
  have hoptions : (Doc.array [doc, typeDoc "null"]).expandWith resolve = .array [doc', typeDoc "null"] := by
    rw [Doc.expandWith_array, List.map_cons, List.map_singleton, h.eq, (expandsTo_typeDoc _).eq]
  have hset : ((Doc.record []).set "anyOf" (.array [doc, typeDoc "null"])).ExpandsTo resolve
      ((Doc.record []).set "anyOf" (.array [doc', typeDoc "null"])) :=
    hoptions ▸ (ExpandsTo.empty resolve).set (by decide) _
  exact hset

/-- A node assembled from documents expands to the node assembled from what they expand to. -/
theorem expandsTo_assemble {s : Schema} {docs : List Doc} {d : Doc}
    (hdocs : ∀ doc ∈ docs, doc.ExpandsTo resolve (doc.expandWith resolve)) (h : s.assemble docs = .ok d) :
    ∃ d', s.assemble (docs.map (Doc.expandWith resolve)) = .ok d' ∧ d.ExpandsTo resolve d' := by
  obtain ⟨a, doc, ha, hbody, hannotate⟩ := assemble_eq_ok.mp h
  obtain ⟨hserializable, rfl⟩ := annotate_eq_ok.mp hannotate
  suffices hexpands : ∃ doc', s.body (docs.map (Doc.expandWith resolve)) = some doc' ∧
      doc.ExpandsTo resolve doc' by
    obtain ⟨doc', hdoc', hexpands⟩ := hexpands
    exact ⟨_, assemble_eq_ok.mpr ⟨a, doc', ha, hdoc', annotate_eq_ok.mpr ⟨hserializable, rfl⟩⟩,
      expandsTo_annotated hexpands a⟩
  unfold body at hbody
  split at hbody
  · cases hbody
    exact ⟨_, rfl, expandsTo_stringDoc _⟩
  · cases hbody
    exact ⟨_, rfl, expandsTo_numberDoc _ _⟩
  · cases hbody
    exact ⟨_, rfl, expandsTo_numberDoc _ _⟩
  · cases hbody
    exact ⟨_, rfl, expandsTo_typeDoc _⟩
  · cases hbody
    exact ⟨_, rfl, expandsTo_arrayDoc _ (hdocs _ List.mem_cons_self)⟩
  · cases hbody
    exact ⟨_, rfl, expandsTo_objectDoc _ _ (fun doc hdoc => (hdocs doc hdoc).isObject) _⟩
  · cases hbody
    exact ⟨_, rfl, expandsTo_nullable (hdocs _ List.mem_cons_self)⟩
  · cases hbody
    exact ⟨_, rfl, expandsTo_refinedDoc _ (hdocs _ List.mem_cons_self)⟩
  · cases hbody

/-! ### Names that stand for one schema -/

/-- The named nodes of a schema are those that a naming gives. -/
def NamedBy (naming : String → Schema) (s : Schema) : Prop :=
  ∀ t ∈ s.nodes, ∀ name, t.sharedName? = some name → t = naming name

theorem NamedBy.mono {naming : String → Schema} {s t : Schema} (h : s.NamedBy naming) (ht : t.nodes ⊆ s.nodes) :
    t.NamedBy naming :=
  fun x hx => h x (ht hx)

/-- Where names stand for one schema each, what serves for a schema is this very schema. -/
theorem eq_of_serves {naming : String → Schema} {u t : Schema} (hu : u.NamedBy naming) (ht : t.NamedBy naming)
    {name : String} (hname : t.sharedName? = some name) (h : u.Serves t) : u = t := by
  rcases h with rfl | hsame
  · rfl
  · rw [hu u u.mem_nodes_self name ((sharedName?_of_same hsame).trans hname),
      ht t t.mem_nodes_self name hname]

variable {naming : String → Schema} {c c' : Collector}

theorem namedBy_of_reached (h : c.Reached (NamedBy naming)) {name : String} {u : Schema}
    (hu : c.source? name = some u) : u.NamedBy naming := by
  obtain ⟨call, hcall, rfl | ⟨hnode, -⟩⟩ := h.settled.allowed name u hu
  · exact hcall
  · exact hcall.mono (nodes_subset_of_mem hnode)

/-- What is listed under a name. -/
def resolveIn (components : List (String × Doc)) (depth : Nat) (name : String) : Doc :=
  ((components.lookup name).map (Doc.expand components depth)).getD (.referTo name)

theorem expandsTo_referTo (name : String) : (Doc.referTo name).ExpandsTo resolve (resolve name) where
  isObject := ⟨_, rfl⟩
  differ := List.nodup_singleton _
  listed := fun _ h => by cases h
  eq := rfl

/-- What stands in the place of a schema expands one level later than the documents of the schema do. -/
theorem expandsTo_of_shownAs (hc : c.Reached (NamedBy naming)) {t : Schema} (ht : t.NamedBy naming) {size : Nat}
    (hyields : ∀ d, t.Yields d → t.PartsBound c.source? → ∀ depth, size ≤ depth →
      ∃ d', Builds (t.inlineDoc false) d' ∧ d.ExpandsTo (resolveIn c.schemas depth) d') {doc : Doc}
    (hshown : t.ShownAs doc) (hbound : t.Bound c.source?) {depth : Nat} (hdepth : size < depth) :
    ∃ doc', Builds (t.document false) doc' ∧ doc.ExpandsTo (resolveIn c.schemas depth) doc' := by
  rcases hshown with ⟨name, hname, rfl⟩ | ⟨hown, hdoc⟩
  · -- the name is bound to `t` itself, so the reference stands for its document
    obtain ⟨u, hu, hserves⟩ := hbound.shared name hname
    obtain rfl := eq_of_serves (namedBy_of_reached hc hu) ht hname hserves
    obtain ⟨d, hd, hdoc, hparts⟩ := hc.settled.exists_document hu
    obtain ⟨depth', rfl⟩ : ∃ depth', depth = depth' + 1 := ⟨depth - 1, by omega⟩
    obtain ⟨d', hbuilds, hexpands⟩ := hyields d hdoc hparts depth' (by omega)
    have hresolve : resolveIn c.schemas (depth' + 1) name = d' := by
      rw [resolveIn, Collector.lookup_schemas, hd]
      exact hexpands.eq
    exact ⟨d', hbuilds, hresolve ▸ expandsTo_referTo name⟩
  · exact hyields doc hdoc (hbound.own hown) depth (by omega)

/-- A document with references expands to the one without. -/
theorem expandsTo_of_yields (hc : c.Reached (NamedBy naming)) {s : Schema} (hs : s.NamedBy naming) {d : Doc}
    (hyields : s.Yields d) (hparts : s.PartsBound c.source?) {depth : Nat} (hdepth : s.nodes.length ≤ depth) :
    ∃ d', Builds (s.inlineDoc false) d' ∧ d.ExpandsTo (resolveIn c.schemas depth) d' := by
  induction s using childInduction generalizing d depth with
  | node s ih =>
      obtain ⟨docs, hdocs, hassemble⟩ := hyields.children
      have hchild : ∀ t ∈ s.children, ∀ doc, t.ShownAs doc →
          Builds (t.document false) (doc.expandWith (resolveIn c.schemas depth)) ∧
            doc.ExpandsTo (resolveIn c.schemas depth) (doc.expandWith (resolveIn c.schemas depth)) := by
        intro t ht doc hshown
        have hnamed := hs.mono (nodes_child_subset ht)
        obtain ⟨doc', hbuilds, hexpands⟩ := expandsTo_of_shownAs hc hnamed
          (fun d hd hparts depth hdepth => ih t ht hnamed hd hparts hdepth) hshown (hparts.child ht)
          ((length_nodes_child_lt ht).trans_le hdepth)
        rw [hexpands.eq]
        exact ⟨hbuilds, hexpands⟩
      have hexpand : ∀ doc ∈ docs, doc.ExpandsTo (resolveIn c.schemas depth)
          (doc.expandWith (resolveIn c.schemas depth)) := by
        intro doc hdoc
        obtain ⟨t, ht, hshown⟩ := exists_left_of_forall₂ hdocs hdoc
        exact (hchild t ht doc hshown).2
      obtain ⟨d', hassemble', hexpands⟩ := expandsTo_assemble hexpand hassemble
      refine ⟨d', ?_, hexpands⟩
      rw [inlineDoc_eq]
      refine Builds.bind (builds_mapM (List.forall₂_map_right_iff.mpr ?_)) (builds_lift hassemble')
      exact forall₂_imp_of_mem hdocs fun t ht doc hshown => (hchild t ht doc hshown).1

/-- **Referencing and inlining describe the same schema.** Let names stand for one schema each in all that a
collector has been asked for. Then the document of a schema, with each reference in it replaced by what the
collector lists, is the document that the schema has on its own. -/
theorem inlined_eq_expand (hc : c.Reached (NamedBy naming)) {s : Schema} (hs : s.NamedBy naming) {d : Doc}
    (hrun : (s.document true).run c = (.ok d, c')) {depth : Nat} (hdepth : s.nodes.length + 1 < depth) :
    s.inlined = .ok (d.expand c'.schemas depth) := by
  have hcall : (Collector.Call.convert s).build.run c = (.ok d, c') := hrun
  have hschema : (Collector.Call.convert s).schema.NamedBy naming := hs
  have hc' : c'.Reached (NamedBy naming) := .call hc hschema hcall
  obtain ⟨depth', rfl⟩ : ∃ depth', depth = depth' + 1 := ⟨depth - 1, by omega⟩
  obtain ⟨d', hbuilds, hexpands⟩ := expandsTo_of_shownAs hc' hs
    (fun d hd hparts depth hdepth => expandsTo_of_yields hc' hs hd hparts hdepth) (shownAs_of_document hrun)
    (Collector.answered_of_run hcall) (Nat.lt_of_succ_lt_succ hdepth)
  have hinlined : s.inlined = .ok d' := congrArg Prod.fst (hbuilds {})
  rw [hinlined]
  exact congrArg Except.ok hexpands.eq.symm

/-- A postal code, shared under a name. -/
def postcode : Schema := .string { name := some "Postcode", description := some "Five digits" } {}

/-- An address with a postal code that must not be a box, shared under a name. -/
def address : Schema :=
  .object { name := some "Address" } {}
    [(.str "postcode", .refined { description := some "No box" }
      ⟨.value .null, .str "No boxes", some "street"⟩ postcode)]

/-- An order that is billed to an address in reach and was sent to addresses before. -/
def order : Schema :=
  .object {} {}
    [(.str "billed", .refined {} ⟨.value .null, .str "Out of reach", none⟩ address),
      (.str "sent", .array {} {} (.nullable {} address))]

/-- The names that the schemas of orders have. -/
def orderNames (name : String) : Schema := if name = "Postcode" then postcode else address

theorem nodes_address : address.nodes = [address, .refined { description := some "No box" }
    ⟨.value .null, .str "No boxes", some "street"⟩ postcode, postcode] := rfl

theorem namedBy_address : address.NamedBy orderNames := by
  intro t ht name hname
  simp only [nodes_address, List.mem_cons, List.not_mem_nil, or_false] at ht
  rcases ht with rfl | rfl | rfl
  · cases hname
    rfl
  · cases hname
  · cases hname
    rfl

theorem namedBy_order : order.NamedBy orderNames := by
  intro t ht name hname
  have hnodes : order.nodes = [order, .refined {} ⟨.value .null, .str "Out of reach", none⟩ address] ++
      address.nodes ++ [.array {} {} (.nullable {} address), .nullable {} address] ++ address.nodes := rfl
  rw [hnodes] at ht
  simp only [List.mem_append, List.mem_cons, List.not_mem_nil, or_false] at ht
  rcases ht with (((rfl | rfl) | ht) | (rfl | rfl)) | ht
  · cases hname
  · cases hname
  · exact namedBy_address t ht name hname
  · cases hname
  · cases hname
  · exact namedBy_address t ht name hname

/-- The document of an order, which refers to addresses. -/
def orderDoc : Doc :=
  .record [("type", .text "object"),
    ("properties", .record [
      ("billed", .record [("$ref", .reference "Address"),
        ("x-refinements", .array [.record [("message", .data (.str "Out of reach"))]])]),
      ("sent", .record [("type", .text "array"),
        ("items", .record [("anyOf", .array [.referTo "Address", typeDoc "null"])])])]),
    ("required", .data (.list [.str "billed", .str "sent"]))]

/-- A collector has been given addresses. What the document of an order becomes with them is the document that
the order has on its own. -/
theorem inlined_eq_expand_order :
    ∃ c c', Collector.Reached (NamedBy orderNames) c ∧ (order.document true).run c = (.ok orderDoc, c') ∧
      order.inlined = .ok (orderDoc.expand c'.schemas 20) := by
  have hruns : ∃ c d, (Collector.Call.add "Address" address).build.run {} = (.ok d, c) ∧
      ∃ c', (order.document true).run c = (.ok orderDoc, c') := ⟨_, _, rfl, _, rfl⟩
  obtain ⟨c, d, hadd, c', hrun⟩ := hruns
  have hschema : (Collector.Call.add "Address" address).schema.NamedBy orderNames := namedBy_address
  have hreached : c.Reached (NamedBy orderNames) := .call .empty hschema hadd
  exact ⟨c, c', hreached, hrun, inlined_eq_expand hreached namedBy_order hrun (by decide)⟩

end Schema

end ApiContract
