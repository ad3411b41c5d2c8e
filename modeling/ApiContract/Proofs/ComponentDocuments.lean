import ApiContract.Proofs.AlikeDocuments

/-!
# One document for a name

A schema is taken under a name that is bound if it is equal to the schema that is bound, and the document
stays that of the first. Equality of schemas is coarser than equality of their documents: it takes a truth value
for a number, and leaves out in which order properties are declared and so required. Where equal nodes show the
same (`Schema.NodesAgree`), equal schemas have documents that are equal as JSON (`Schema.alike_of_yields`), and
what stands under a name is the document of every schema that is referred to by it (`component_document`). Where
they do not, there are two documents for one name (`two_documents`).
-/

namespace ApiContract

namespace Schema

open Doc (Alike)

theorem alike_referTo (name : String) : (Doc.referTo name).Alike (.referTo name) := by
  have hset : ((Doc.record []).set "$ref" (.reference name)).Alike
      ((Doc.record []).set "$ref" (.reference name)) :=
    Alike.empty.set (by decide) (Value.sameJson_str _)
  exact hset

/-- The children of equal schemas are equal one by one, in whatever order they come. -/
theorem exists_child_of_same {s t : Schema} (hs : s.Named) (h : s.same t = true) :
    ∀ y ∈ t.children, ∃ x ∈ s.children, x.same y = true := by
  cases same_iff.mp h with
  | array _ _ hitems => exact List.forall_mem_singleton.mpr ⟨_, List.mem_cons_self, hitems⟩
  | nullable _ hinner => exact List.forall_mem_singleton.mpr ⟨_, List.mem_cons_self, hinner⟩
  | refined _ _ hbase => exact List.forall_mem_singleton.mpr ⟨_, List.mem_cons_self, hbase⟩
  | @object a b f g ps qs _ _ hlength hps =>
      have hdiffer : ps.Pairwise fun p p' => ∀ q ∈ qs, p.1.same q.1 = true ∧ p.2.same q.2 = true →
          ¬ (p'.1.same q.1 = true ∧ p'.2.same q.2 = true) := by
        refine (List.pairwise_map.mp hs.names.differ).imp_of_mem fun {p p'} hp hp' hne q _ hq hq' => hne ?_
        exact (hs.names.key_eq hp hq.1).symm.trans (hs.names.key_eq hp' hq'.1)
      refine List.forall_mem_map.mpr fun q hq => ?_
      obtain ⟨p, hp, -, hsame⟩ := exists_left_of_length_le hlength.ge hps hdiffer q hq
      exact ⟨p.2, List.mem_map_of_mem hp, hsame⟩
  | _ => exact List.forall_mem_nil _

/-! ### Alike documents -/

/-- Equal nodes are put together alike from documents that are alike for equal children. -/
theorem alike_body {s t : Schema} (h : s.Same t) (hs : s.Named) (hagrees : s.Agrees t) {docs docs' : List Doc}
    (hdocs : s.children.length = docs.length) (hdocs' : t.children.length = docs'.length)
    (hchild : ∀ p ∈ s.children.zip docs, ∀ q ∈ t.children.zip docs', p.1.same q.1 = true → p.2.Alike q.2)
    {doc doc' : Doc} (hdoc : s.body docs = some doc) (hdoc' : t.body docs' = some doc') : doc.Alike doc' := by
  cases h with
  | string _ hf =>
      cases hdoc
      cases hdoc'
      exact alike_stringDoc hf hagrees.data.right
  | number _ hf =>
      cases hdoc
      cases hdoc'
      exact alike_numberDoc _ hf hagrees.data.right
  | integer _ hf =>
      cases hdoc
      cases hdoc'
      exact alike_numberDoc _ hf hagrees.data.right
  | boolean _ =>
      cases hdoc
      cases hdoc'
      exact alike_typeDoc _
  | array _ hf hitems =>
      obtain ⟨d, rfl⟩ := List.length_eq_one_iff.mp hdocs.symm
      obtain ⟨d', rfl⟩ := List.length_eq_one_iff.mp hdocs'.symm
      cases hdoc
      cases hdoc'
      exact alike_arrayDoc hf hagrees.data.right
        (hchild _ List.mem_cons_self _ List.mem_cons_self hitems).sameJson
  | nullable _ hinner =>
      obtain ⟨d, rfl⟩ := List.length_eq_one_iff.mp hdocs.symm
      obtain ⟨d', rfl⟩ := List.length_eq_one_iff.mp hdocs'.symm
      cases hdoc
      cases hdoc'
      exact alike_nullable (hchild _ List.mem_cons_self _ List.mem_cons_self hinner).sameJson
  | refined _ hr hbase =>
      obtain ⟨d, rfl⟩ := List.length_eq_one_iff.mp hdocs.symm
      obtain ⟨d', rfl⟩ := List.length_eq_one_iff.mp hdocs'.symm
      cases hdoc
      cases hdoc'
      exact alike_refinedDoc hr hagrees.data.right (hchild _ List.mem_cons_self _ List.mem_cons_self hbase)
  | @object a b f g ps qs _ hf hlength hps =>
      cases hdoc
      cases hdoc'
      refine alike_objectDoc hf hs.names hagrees.required (Doc.sameJson_object ?_ ?_ ?_)
      · intro m hm
        obtain ⟨p, hp, hkey⟩ := List.mem_map.mp (List.of_mem_zip hm).1
        exact hkey ▸ hs.names.texts p hp
      · simp only [children, List.length_map] at hdocs hdocs'
        simp only [List.length_zip, List.length_map]
        omega
      · simp only [children, List.length_map, List.zip_map_left, List.forall_mem_map] at hdocs hdocs' hchild ⊢
        rintro ⟨p, d⟩ hp
        obtain ⟨q, hq, hkey, hsame⟩ := hps p (List.of_mem_zip hp).1
        obtain ⟨d', hd'⟩ := exists_mem_zip hdocs' hq
        exact ⟨_, List.mem_map_of_mem hd', hs.names.key_eq (List.of_mem_zip hp).1 hkey,
          (hchild _ hp _ hd' hsame).sameJson⟩
  | bare _ => cases hdoc
  | foreign _ => cases hdoc

/-- Equal parts are shown by one reference, or in place by documents of their own. -/
theorem alike_of_shownAs {x y : Schema} (hsame : x.same y = true) {d e : Doc} (hd : x.ShownAs d)
    (he : y.ShownAs e) (hown : x.Yields d → y.Yields e → d.Alike e) : d.Alike e := by
  have hname := sharedName?_of_same hsame
  rcases hd with ⟨name, hx, rfl⟩ | ⟨hx, hdoc⟩
  · rcases he with ⟨name', hy, rfl⟩ | ⟨hy, -⟩
    · rw [hx, hy] at hname
      obtain rfl := Option.some.inj hname
      exact alike_referTo name
    · rw [hx, hy] at hname
      cases hname
  · rcases he with ⟨name', hy, rfl⟩ | ⟨-, hdoc'⟩
    · rw [hx, hy] at hname
      cases hname
    · exact hown hdoc hdoc'

/-- Nodes of two schemas that are equal show the same. -/
def NodesAgree (s t : Schema) : Prop := ∀ x ∈ s.nodes, ∀ y ∈ t.nodes, x.same y = true → x.Agrees y

theorem NodesAgree.child {s t x y : Schema} (h : s.NodesAgree t) (hx : x ∈ s.children) (hy : y ∈ t.children) :
    x.NodesAgree y :=
  fun n hn m hm => h n (nodes_child_subset hx hn) m (nodes_child_subset hy hm)

theorem Named.child {s t : Schema} (h : s.Named) (ht : t ∈ s.children) : t.Named :=
  everywhere_iff_nodes.mpr fun n hn => everywhere_iff_nodes.mp h n (nodes_child_subset ht hn)

/-- Equal schemas whose nodes show the same have documents that are alike. -/
theorem alike_of_yields {s t : Schema} (hs : s.Named) (hsame : s.same t = true) (hagree : s.NodesAgree t)
    {d e : Doc} (hd : s.Yields d) (he : t.Yields e) : d.Alike e := by
  induction s using childInduction generalizing t d e with
  | node s ih =>
      obtain ⟨docs, hdocs, hassemble⟩ := hd.children
      obtain ⟨docs', hdocs', hassemble'⟩ := he.children
      obtain ⟨a, doc, ha, hbody, hannotate⟩ := assemble_eq_ok.mp hassemble
      obtain ⟨b, doc', hb, hbody', hannotate'⟩ := assemble_eq_ok.mp hassemble'
      obtain ⟨-, rfl⟩ := annotate_eq_ok.mp hannotate
      obtain ⟨-, rfl⟩ := annotate_eq_ok.mp hannotate'
      have hagrees := hagree s s.mem_nodes_self t t.mem_nodes_self hsame
      obtain ⟨b', hb', hab⟩ := exists_annotations_of_same hsame ha
      obtain rfl := Option.some.inj (hb.symm.trans hb')
      have htold : ToldApart (annotationData a) (annotationData b) := fun v hv w hw =>
        hagrees.data v (annotationData_subset ha hv) w (annotationData_subset hb hw)
      refine alike_annotated hab htold
        (alike_body (same_iff.mp hsame) hs hagrees hdocs.length_eq hdocs'.length_eq ?_ hbody hbody')
      rintro ⟨x, d⟩ hx ⟨y, e⟩ hy hxy
      have hxs := (List.of_mem_zip hx).1
      have hyt := (List.of_mem_zip hy).1
      have hshown : x.ShownAs d := (List.forall₂_iff_zip.mp hdocs).2 hx
      have hshown' : y.ShownAs e := (List.forall₂_iff_zip.mp hdocs').2 hy
      exact alike_of_shownAs hxy hshown hshown' (ih x hxs (hs.child hxs) hxy (hagree.child hxs hyt))

/-! ### Documenting once more -/

/-- Genuine data, and properties with pairwise different texts for names. -/
structure Genuine (s : Schema) : Prop where
  named : s.Named
  data : ∀ x ∈ s.nodes, ∀ v ∈ x.shownData, v.Genuine

theorem Genuine.mono {s t : Schema} (h : s.Genuine) (ht : t.nodes ⊆ s.nodes) : t.Genuine where
  named := everywhere_iff_nodes.mpr fun n hn => everywhere_iff_nodes.mp h.named n (ht hn)
  data := fun x hx => h.data x (ht hx)

theorem serializable_of_same {a b : Annotations} (hgenuine : ∀ v ∈ annotationData a, v.Genuine)
    (hsame : a.same b = true) (ha : a.Serializable) : b.Serializable where
  default := by
    obtain ⟨-, hdefault, -, -⟩ := Annotations.same_iff.mp hsame
    rcases sameOption_iff.mp hdefault with ⟨-, hnone⟩ | ⟨v, w, hv, hw, hvw⟩
    · rw [hnone]
      exact fun _ h => by cases h
    · rw [hw]
      rintro _ ⟨⟩
      refine Value.isSerializable_of_same (hgenuine v (List.mem_append_left _ ?_)) hvw (ha.default v hv)
      exact Option.mem_toList.mpr hv
  examples := by
    obtain ⟨-, -, hexamples, -⟩ := Annotations.same_iff.mp hsame
    rcases sameOption_iff.mp hexamples with ⟨-, hnone⟩ | ⟨vs, ws, hvs, hws, hsame⟩
    · rw [hnone]
      exact fun _ h => by cases h
    · rw [hws]
      rintro _ ⟨⟩
      have hlist : (Value.list vs).same (.list ws) = true := hsame
      refine Value.isSerializable_of_same (Value.everywhere_list.mpr ⟨trivial, fun v hv => ?_⟩) hlist
        (ha.examples vs hvs)
      refine hgenuine v (List.mem_append_right _ ?_)
      rw [hvs]
      exact hv

theorem exists_body_of_same {s t : Schema} (h : s.Same t) {docs docs' : List Doc} {doc : Doc}
    (hdoc : s.body docs = some doc) (hdocs' : t.children.length = docs'.length) :
    ∃ doc', t.body docs' = some doc' := by
  cases h with
  | array _ _ _ =>
      obtain ⟨d', rfl⟩ := List.length_eq_one_iff.mp hdocs'.symm
      exact ⟨_, rfl⟩
  | nullable _ _ =>
      obtain ⟨d', rfl⟩ := List.length_eq_one_iff.mp hdocs'.symm
      exact ⟨_, rfl⟩
  | refined _ _ _ =>
      obtain ⟨d', rfl⟩ := List.length_eq_one_iff.mp hdocs'.symm
      exact ⟨_, rfl⟩
  | bare _ => cases hdoc
  | foreign _ => cases hdoc
  | _ => exact ⟨_, rfl⟩

/-- A node that is equal to one that is assembled can be assembled. -/
theorem exists_assemble_of_same {s t : Schema} (hgenuine : ∀ v ∈ s.shownData, v.Genuine)
    (hsame : s.same t = true) {docs docs' : List Doc} {d : Doc} (h : s.assemble docs = .ok d)
    (hdocs' : t.children.length = docs'.length) : ∃ e, t.assemble docs' = .ok e := by
  obtain ⟨a, doc, ha, hbody, hannotate⟩ := assemble_eq_ok.mp h
  obtain ⟨hserializable, -⟩ := annotate_eq_ok.mp hannotate
  obtain ⟨doc', hbody'⟩ := exists_body_of_same (same_iff.mp hsame) hbody hdocs'
  obtain ⟨b, hb, hab⟩ := exists_annotations_of_same hsame ha
  have hb' := serializable_of_same (fun v hv => hgenuine v (annotationData_subset ha hv)) hab hserializable
  exact ⟨_, assemble_eq_ok.mpr ⟨b, doc', hb, hbody', annotate_eq_ok.mpr ⟨hb', rfl⟩⟩⟩

theorem run_boolean {a : Annotations} (ha : a.Serializable) (c : Collector) :
    ((boolean a).inlineDoc true).run c = (.ok (annotated a (typeDoc "boolean")), c) := by
  show ((annotate a (typeDoc "boolean") : Except Fault Doc) : Build Doc).run c = _
  rw [build_lift, annotate_eq_ok.mpr ⟨ha, rfl⟩]

/-- A schema whose name is bound to an equal schema is referred to. -/
theorem run_document_of_bound {c : Collector} {t u : Schema} {name : String}
    (hname : t.sharedName? = some name) (hu : c.source? name = some u) (hsame : u.same t = true) :
    (t.document true).run c = (.ok (.referTo name), c) := by
  rw [document_of_shared hname, Collector.add, Collector.run_bind, hu]
  dsimp only
  rw [if_pos hsame]

/-- A schema that is equal to one whose parts are bound is documented, and binds nothing. -/
theorem exists_run_of_same {c : Collector} {s t : Schema} (hs : s.Genuine) (hsame : s.same t = true) {d : Doc}
    (hd : s.Yields d) (hparts : s.PartsBound c.source?) : ∃ e, (t.inlineDoc true).run c = (.ok e, c) := by
  induction s using childInduction generalizing t d with
  | node s ih =>
      obtain ⟨docs, hdocs, hassemble⟩ := hd.children
      have hchild : ∀ y ∈ t.children, ∃ e, (y.document true).run c = (.ok e, c) := by
        intro y hy
        obtain ⟨x, hx, hxy⟩ := exists_child_of_same hs.named hsame y hy
        have hbound := hparts.child hx
        obtain ⟨doc, -, hshown⟩ := exists_right_of_forall₂ hdocs hx
        rcases hshown with ⟨name, hname, -⟩ | ⟨hown, hyields⟩
        · obtain ⟨u, hu, hserves⟩ := hbound.shared name hname
          have huy : u.same y = true := hserves.elim (fun h => h ▸ hxy) fun h => same_trans h hxy
          exact ⟨_, run_document_of_bound ((sharedName?_of_same hxy).symm.trans hname) hu huy⟩
        · rw [document_of_own ((sharedName?_of_same hxy).symm.trans hown)]
          exact ih x hx (hs.mono (nodes_child_subset hx)) hxy hyields (hbound.own hown)
      obtain ⟨docs', hdocs', hlength⟩ := exists_build_mapM hchild
      obtain ⟨e, he⟩ := exists_assemble_of_same (hs.data s s.mem_nodes_self) hsame hassemble hlength
      refine ⟨e, ?_⟩
      rw [inlineDoc_eq, build_bind_ok hdocs', build_lift, he]

/-! ### References -/

/-- Documenting a schema in place comes to a part that is referred to by its name. -/
inductive ComesTo : Schema → String → Schema → Prop
  | child {s t : Schema} {name : String} (ht : t ∈ s.children) (hname : t.sharedName? = some name) :
      ComesTo s name t
  | deeper {s u t : Schema} {name : String} (hu : u ∈ s.children) (hown : u.sharedName? = none)
      (ht : ComesTo u name t) : ComesTo s name t

theorem PartsBound.boundTo {source? : String → Option Schema} {s t : Schema} {name : String}
    (h : s.PartsBound source?) (ht : s.ComesTo name t) : t.BoundTo source? name := by
  induction ht with
  | child ht hname => exact (h.child ht).shared _ hname
  | deeper hu hown _ ih => exact ih ((h.child hu).own hown)

end Schema

namespace Collector

open Schema (Genuine)

/-- A call refers to a schema by a name: it adds or converts the schema, or it comes to it as a part. -/
inductive Call.Refers : Call → String → Schema → Prop
  | add {name : String} {s : Schema} : Refers (.add name s) name s
  | convert {name : String} {s : Schema} (hname : s.sharedName? = some name) : Refers (.convert s) name s
  | part {name : String} {s t : Schema} (hown : s.sharedName? = none) (ht : s.ComesTo name t) :
      Refers (.convert s) name t

theorem Call.Answered.boundTo {source? : String → Option Schema} {call : Call} (h : call.Answered source?)
    {name : String} {t : Schema} (ht : call.Refers name t) : t.BoundTo source? name := by
  cases ht with
  | add => exact h
  | convert hname => exact h.shared _ hname
  | part hown ht => exact (h.own hown).boundTo ht

variable {c c' : Collector}

theorem genuine_of_reached (h : c.Reached Genuine) {name : String} {u : Schema}
    (hu : c.source? name = some u) : u.Genuine := by
  obtain ⟨call, hcall, rfl | ⟨hnode, -⟩⟩ := h.settled.allowed name u hu
  · exact hcall
  · exact hcall.mono (Schema.nodes_subset_of_mem hnode)

/-- **A name stands for one document, as far as equality tells schemas apart.** Whatever schema a call refers
to by a name, at any depth, it has a document in place, and documenting it once more gives this document and
changes nothing. If the schema is the one that is bound, the document is what is listed under the name. If it
is another, it is equal to that one, and the two documents are equal as JSON if equal nodes show the same. -/
theorem component_document (hc : c.Reached Genuine) {call : Call} (hschema : call.schema.Genuine) {d : Doc}
    (hrun : call.build.run c = (.ok d, c')) {name : String} {t : Schema}
    (ht : call.Refers name t ∨ ∃ other u, c'.source? other = some u ∧ u.ComesTo name t) :
    ∃ u component e, c'.source? name = some u ∧ c'.schemas.lookup name = some component ∧ t.Yields e ∧
      (u.same t = true → (t.inlineDoc true).run c' = (.ok e, c')) ∧
        (t = u ∧ e = component ∨ u.same t = true ∧ (u.NodesAgree t → component.SameJson e)) := by
  have hc' : c'.Reached Genuine := .call hc hschema hrun
  obtain ⟨u, hu, hserves⟩ : t.BoundTo c'.source? name := by
    rcases ht with ht | ⟨other, u, hu, ht⟩
    · exact (answered_of_run hrun).boundTo ht
    · obtain ⟨-, -, -, hparts⟩ := hc'.settled.exists_document hu
      exact hparts.boundTo ht
  obtain ⟨component, hcomponent, hyields, hparts⟩ := hc'.settled.exists_document hu
  rw [← lookup_schemas] at hcomponent
  have hgenuine := genuine_of_reached hc' hu
  rcases hserves with rfl | hsame
  · refine ⟨t, component, component, hu, hcomponent, hyields, fun hsame => ?_, .inl ⟨rfl, rfl⟩⟩
    obtain ⟨e, he⟩ := Schema.exists_run_of_same hgenuine hsame hyields hparts
    rwa [Schema.Yields.unique hyields ⟨_, _, he⟩]
  · obtain ⟨e, he⟩ := Schema.exists_run_of_same hgenuine hsame hyields hparts
    refine ⟨u, component, e, hu, hcomponent, ⟨_, _, he⟩, fun _ => he, .inr ⟨hsame, fun hagree => ?_⟩⟩
    exact (Schema.alike_of_yields hgenuine.named hsame hagree hyields ⟨_, _, he⟩).sameJson

/-- A rate up to a maximum. -/
def rate (maximum : Value) : Schema := .number { name := some "Rate" } { maximum := some maximum }

theorem genuine_rate {maximum : Value} (h : maximum.Genuine) : (rate maximum).Genuine where
  named := trivial
  data := List.forall_mem_singleton.mpr (List.forall_mem_singleton.mpr h)

/-- One, as a float. -/
def floatOne : Value := .float (.finite false 1 0)

/-- A rate up to one is documented once, be the maximum an integer or a float: the documents are equal. -/
theorem component_document_rate :
    ∃ c component e, (serve {} [.convert (rate (.int 1)), .convert (rate floatOne)]).2 = c ∧
      c.schemas.lookup "Rate" = some component ∧ ((rate floatOne).inlineDoc true).run c = (.ok e, c) ∧
      component.SameJson e := by
  have hfirst : (Call.convert (rate (.int 1))).schema.Genuine :=
    genuine_rate (show (Value.int 1).Genuine from trivial)
  have hsecond : (Call.convert (rate floatOne)).schema.Genuine :=
    genuine_rate (show floatOne.Genuine from ⟨by decide, by decide, by decide⟩)
  have hrun : (Call.convert (rate (.int 1))).build.run {} =
      (.ok (.referTo "Rate"), (serve {} [.convert (rate (.int 1))]).2) := by with_unfolding_all rfl
  have hrun' : (Call.convert (rate floatOne)).build.run (serve {} [.convert (rate (.int 1))]).2 =
      (.ok (.referTo "Rate"), (serve {} [.convert (rate (.int 1)), .convert (rate floatOne)]).2) := by
    with_unfolding_all rfl
  have hbound : (serve {} [.convert (rate (.int 1)), .convert (rate floatOne)]).2.source? "Rate" =
      some (rate (.int 1)) := by
    with_unfolding_all rfl
  have hsame : (rate (.int 1)).same (rate floatOne) = true := by with_unfolding_all rfl
  have hagree : (rate (.int 1)).NodesAgree (rate floatOne) := by
    refine List.forall_mem_singleton.mpr (List.forall_mem_singleton.mpr fun _ => ⟨?_, rfl⟩)
    exact List.forall_mem_singleton.mpr (List.forall_mem_singleton.mpr fun _ => by with_unfolding_all rfl)
  obtain ⟨u, component, e, hu, hcomponent, -, hdocument, hcases⟩ :=
    component_document (.call .empty hfirst hrun) hsecond hrun' (.inl (.convert rfl))
  obtain rfl := Option.some.inj (hbound.symm.trans hu)
  refine ⟨_, component, e, rfl, hcomponent, hdocument hsame, ?_⟩
  rcases hcases with ⟨heq, -⟩ | ⟨-, hjson⟩
  · cases heq
  · exact hjson hagree

/-- A switch with a default. -/
def switch (v : Value) : Schema := .boolean { name := some "Switch", default := some v }

/-- The ends of a range are required, in the order in which they are declared. -/
def range (names : List String) : Schema :=
  .object { name := some "Range" } {} (names.map fun name => (.str name, .integer {} {}))

/-- The switch that is on, the switch that is set to one and the range, from either end. -/
def calls : List Call :=
  [.convert (switch (.bool true)), .convert (switch (.int 1)), .convert (range ["from", "to"]),
    .convert (range ["to", "from"])]

/-- **Two documents for one name.** Calls for equal schemas are answered with one reference, and the schemas
have documents that are different: in one the default is a truth value and in the other a number, or they list
what is required in another order. -/
theorem two_documents :
    (serve {} calls).1.map (·.2) =
        [.ok (.referTo "Switch"), .ok (.referTo "Switch"), .ok (.referTo "Range"), .ok (.referTo "Range")] ∧
      (∃ component e, (serve {} calls).2.document? "Switch" = some component ∧
        ((switch (.int 1)).inlineDoc true).run (serve {} calls).2 = (.ok e, (serve {} calls).2) ∧
        ¬ component.SameJson e) ∧
      ∃ component e, (serve {} calls).2.document? "Range" = some component ∧
        ((range ["to", "from"]).inlineDoc true).run (serve {} calls).2 = (.ok e, (serve {} calls).2) ∧
        ¬ component.SameJson e := by
  have hone : Json.isSerializable (.int 1) = true :=
    Json.isSerializable_iff.mpr (Numeral.withinLimit_of_lt (n := 1) (by decide))
  have hserializable : Annotations.Serializable { name := some "Switch", default := some (.int 1) } := by
    constructor
    · rintro _ ⟨⟩
      exact hone
    · rintro _ ⟨⟩
  refine ⟨by with_unfolding_all rfl, ?_, ?_⟩
  · exact ⟨_, _, by with_unfolding_all rfl, Schema.run_boolean hserializable _,
      by intro h; exact Bool.false_ne_true h⟩
  · exact ⟨_, _, by with_unfolding_all rfl, by with_unfolding_all rfl,
      by intro h; exact Bool.false_ne_true h⟩

end Collector

end ApiContract
