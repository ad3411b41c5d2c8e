import ApiContract.Proofs.ExpandedDocuments
import ApiContract.Proofs.FailedCalls
import ApiContract.Proofs.SelfEquality
import ApiContract.Proofs.SharedNames

/-!
# The order of conversions

If a name stands for one tree throughout some schemas, then it does not matter in which order a fresh collector
converts them (`serve_of_perm`). What converting them has left behind can be told from the schemas alone: under
each of their names stands the document of the tree that has the name, and nothing else is listed
(`document?_eq_some_iff`). And whether all of them can be converted depends on their nodes one by one
(`Held.documentable`, `serve_of_documentable`).
-/

namespace ApiContract

namespace Schema

variable {ss : List Schema} {source? source?' : String → Option Schema} {s t : Schema} {name : String}

/-- A node of the schemas has the name. -/
def NamedIn (ss : List Schema) (name : String) (t : Schema) : Prop :=
  ∃ s ∈ ss, t ∈ s.nodes ∧ t.sharedName? = some name

/-- A name stands for one tree throughout the schemas. -/
def OneTreePerName (ss : List Schema) : Prop :=
  ∀ name t t', NamedIn ss name t → NamedIn ss name t' → t = t'

theorem namedIn_congr {ss' : List Schema} (h : ss.Perm ss') : NamedIn ss name t ↔ NamedIn ss' name t :=
  exists_congr fun _ => and_congr_left fun _ => h.mem_iff

theorem oneTreePerName_of_namedBy {naming : String → Schema} (h : ∀ s ∈ ss, s.NamedBy naming) :
    OneTreePerName ss := by
  rintro name t t' ⟨s, hs, ht, hname⟩ ⟨s', hs', ht', hname'⟩
  rw [h s hs t ht name hname, h s' hs' t' ht' name hname']

/-- The names of such schemas do not conflict. -/
theorem OneTreePerName.consistent (h : OneTreePerName ss) (hnan : ∀ s ∈ ss, s.NanFree) :
    Consistent (ss.flatMap namedNodes) := by
  have hmem : ∀ b ∈ ss.flatMap namedNodes, NamedIn ss b.1 b.2 ∧ b.2.NanFree := by
    intro b hb
    obtain ⟨s, hs, hb⟩ := List.mem_flatMap.mp hb
    obtain ⟨t, ht, hb⟩ := List.mem_filterMap.mp hb
    obtain ⟨name, hname, rfl⟩ := Option.map_eq_some_iff.mp hb
    exact ⟨⟨s, hs, ht, hname⟩, (hnan s hs).mono (nodes_subset_of_mem ht)⟩
  refine List.pairwise_of_forall_mem_list fun a ha b hb heq => ?_
  obtain ⟨hfirst, hself⟩ := hmem a ha
  obtain ⟨hsecond, -⟩ := hmem b hb
  rw [← h a.1 a.2 b.2 hfirst (heq ▸ hsecond)]
  exact same_self hself

/-! ### Schemas that are documented -/

theorem ShownAs.unique {d d' : Doc} (h : s.ShownAs d) (h' : s.ShownAs d') : d = d' := by
  rcases h with ⟨name, hname, rfl⟩ | ⟨hown, hyields⟩
  · rcases h' with ⟨name', hname', rfl⟩ | ⟨hown', -⟩
    · rw [Option.some.inj (hname.symm.trans hname')]
    · rw [hown'] at hname
      cases hname
  · rcases h' with ⟨name', hname', -⟩ | ⟨-, hyields'⟩
    · rw [hown] at hname'
      cases hname'
    · exact hyields.unique hyields'

/-- What has a document is of a kind, and its default and its examples can be written. -/
theorem Yields.isNode_and_serializable {d : Doc} (h : s.Yields d) :
    s.isNode = true ∧ ∀ a ∈ s.annotations?, a.Serializable := by
  obtain ⟨c, c', h⟩ := h
  obtain ⟨docs, a, body, -, ha, hbody, hserializable, -⟩ := exists_body_of_run h
  constructor
  · cases s with
    | bare a => cases hbody
    | foreign v => cases hbody
    | _ => rfl
  · intro a' ha'
    obtain rfl := Option.some.inj (ha.symm.trans ha')
    exact hserializable

/-- A schema has a document, the parts of which are bound, and stands under its name itself if it is shared. -/
structure Held (source? : String → Option Schema) (s : Schema) : Prop where
  yields : ∃ d, s.Yields d
  parts : s.PartsBound source?
  bound : ∀ name, s.sharedName? = some name → source? name = some s

theorem Held.mono (h : s.Held source?) (hmono : ∀ name u, source? name = some u → source?' name = some u) :
    s.Held source?' where
  yields := h.yields
  parts := h.parts.mono hmono
  bound := fun name hname => hmono name s (h.bound name hname)

theorem Held.exists_shownAs (h : s.Held source?) : ∃ d, s.ShownAs d := by
  cases hname : s.sharedName? with
  | some name => exact ⟨_, .inl ⟨name, hname, rfl⟩⟩
  | none =>
      obtain ⟨d, hd⟩ := h.yields
      exact ⟨d, .inr ⟨hname, hd⟩⟩

end Schema

namespace Collector

open Schema (NamedIn OneTreePerName Held namedNodes)

variable {ss : List Schema} {c c' : Collector} {s t : Schema} {name : String}

/-- What stands somewhere and is bound is held, if its name can be bound to nothing else. -/
theorem Settled.held (h : c.Settled (NamedIn ss)) (hnames : OneTreePerName ss)
    (hnamed : ∀ name, t.sharedName? = some name → NamedIn ss name t) {d : Doc} (hshown : t.ShownAs d)
    (hbound : t.Bound c.source?) : t.Held c.source? := by
  rcases hshown with ⟨name, hname, -⟩ | ⟨hown, hyields⟩
  · obtain ⟨u, hu, -⟩ := hbound.shared name hname
    obtain rfl := hnames name u t (h.allowed name u hu) (hnamed name hname)
    obtain ⟨d', -, hyields, hparts⟩ := h.exists_document hu
    refine ⟨⟨d', hyields⟩, hparts, fun name' hname' => ?_⟩
    obtain rfl := Option.some.inj (hname.symm.trans hname')
    exact hu
  · refine ⟨⟨d, hyields⟩, hbound.own hown, fun name hname => ?_⟩
    rw [hown] at hname
    cases hname

/-- With a schema all of its nodes are held. -/
theorem Settled.held_nodes (h : c.Settled (NamedIn ss)) (hnames : OneTreePerName ss) (hs : s.Held c.source?)
    (hnamed : ∀ t ∈ s.nodes, ∀ name, t.sharedName? = some name → NamedIn ss name t) :
    ∀ t ∈ s.nodes, t.Held c.source? := by
  induction s using Schema.childInduction with
  | node s ih =>
      intro t ht
      rcases Schema.mem_nodes_iff.mp ht with rfl | ⟨child, hchild, ht⟩
      · exact hs
      · have hbelow := Schema.nodes_child_subset hchild
        obtain ⟨d, hd⟩ := hs.yields
        obtain ⟨docs, hdocs, -⟩ := hd.children
        obtain ⟨doc, -, hshown⟩ := exists_right_of_forall₂ hdocs hchild
        have hheld : child.Held c.source? :=
          h.held hnames (hnamed child (hbelow child.mem_nodes_self)) hshown (hs.parts.child hchild)
        exact ih child hchild hheld (fun u hu => hnamed u (hbelow hu)) t ht

/-- A collector from which nothing but the given schemas has been asked for holds all of them. -/
structure Converted (ss : List Schema) (c : Collector) : Prop where
  settled : c.Settled (NamedIn ss)
  held : ∀ s ∈ ss, s.Held c.source?

namespace Converted

theorem nodes (h : c.Converted ss) (hnames : OneTreePerName ss) (hs : s ∈ ss) :
    ∀ t ∈ s.nodes, t.Held c.source? :=
  h.settled.held_nodes hnames (h.held s hs) fun _ ht _ hname => ⟨s, hs, ht, hname⟩

theorem documentable (h : c.Converted ss) (hnames : OneTreePerName ss) (hs : s ∈ ss) : s.Documentable := by
  intro t ht
  obtain ⟨d, hd⟩ := (h.nodes hnames hs t ht).yields
  exact hd.isNode_and_serializable

/-- Under a name stands the document of the tree that has the name. -/
theorem document?_eq_some_iff (h : c.Converted ss) (hnames : OneTreePerName ss) {d : Doc} :
    c.document? name = some d ↔ ∃ t, NamedIn ss name t ∧ t.Yields d := by
  constructor
  · intro hd
    obtain ⟨t, ht, hyields, -⟩ := h.settled.sound name d hd
    exact ⟨t, h.settled.allowed name t ht, hyields⟩
  · rintro ⟨t, ⟨s, hs, ht, hname⟩, hyields⟩
    obtain ⟨d', hd', hyields', -⟩ := h.settled.exists_document ((h.nodes hnames hs t ht).bound name hname)
    rw [hd', hyields.unique hyields']

end Converted

/-! ### Conversions in a row -/

/-- A row of conversions that succeed. -/
theorem Settled.serve (hnames : OneTreePerName ss) {todo : List Schema} (hsub : todo ⊆ ss)
    (h : c.Settled (NamedIn ss)) (hok : ∀ call f, (call, .error f) ∉ (c.serve (todo.map .convert)).1) :
    (c.serve (todo.map .convert)).2.Settled (NamedIn ss) ∧
      ∀ s ∈ todo, s.Held (c.serve (todo.map .convert)).2.source? := by
  induction todo generalizing c with
  | nil => exact ⟨h, List.forall_mem_nil _⟩
  | cons s todo ih =>
      obtain ⟨hs, hsub⟩ := List.cons_subset.mp hsub
      rw [List.map_cons, Collector.serve] at hok ⊢
      rcases hrun : (Call.convert s).build.run c with ⟨f | d, c₁⟩
      · rw [hrun] at hok
        exact absurd List.mem_cons_self (hok (.convert s) f)
      · rw [hrun] at hok
        dsimp only at hok ⊢
        have hnodes : ∀ t ∈ s.nodes, ∀ name, t.sharedName? = some name → NamedIn ss name t :=
          fun t ht name hname => ⟨s, hs, ht, hname⟩
        have hcollects : Collects (NamedIn ss) c₁.source? (s.document true) fun d =>
            s.ShownAs d ∧ s.Bound c₁.source? := collects_document hnodes
        have hsettled := h.run hcollects hrun
        obtain ⟨hshown, hbound⟩ := (hcollects.completes hrun).2 fun _ _ => id
        have hheld := hsettled.held hnames (hnodes s s.mem_nodes_self) hshown hbound
        obtain ⟨hlast, hrest⟩ := ih hsub hsettled fun call f hf => hok call f (List.mem_cons_of_mem _ hf)
        have hgrows : c₁.Grows (fun _ _ => True) (c₁.serve (todo.map .convert)).2 :=
          grows_serve (fun _ _ _ _ _ => trivial) c₁
        exact ⟨hlast, List.forall_mem_cons.mpr ⟨hheld.mono fun _ _ => hgrows.source?, hrest⟩⟩

/-- Schemas that can be documented, and whose names do not conflict, are converted one after the other. -/
theorem serve_of_documentable {doc : Schema → Doc} (hdoc : ∀ s ∈ ss, s.Documentable ∧ s.ShownAs (doc s))
    (hnames : Consistent (c.sources ++ ss.flatMap namedNodes)) :
    (c.serve (ss.map .convert)).1 = ss.map fun s => (.convert s, .ok (doc s)) := by
  induction ss generalizing c with
  | nil => rfl
  | cons s ss ih =>
      obtain ⟨⟨hdocumentable, hshown⟩, hdoc⟩ := List.forall_mem_cons.mp hdoc
      rw [List.flatMap_cons, ← List.append_assoc] at hnames
      have hproceeds : Proceeds (fun _ => False) s.namedNodes (s.document true) :=
        Schema.proceeds_document hdocumentable
      have hfirst : Consistent (c.sources ++ s.namedNodes) := hnames.sublist (List.sublist_append_left _ _)
      rcases hrun : (s.document true).run c with ⟨f | d, c₁⟩
      · exact (hproceeds.possible hfirst hrun).elim
      · obtain ⟨bound, hbound, hsources⟩ := hproceeds.binds hfirst hrun
        have hrest : Consistent (c₁.sources ++ ss.flatMap namedNodes) := by
          rw [hsources]
          exact hnames.sublist ((hbound.append_left _).append_right _)
        have hcall : (Call.convert s).build.run c = (.ok d, c₁) := hrun
        rw [List.map_cons, Collector.serve, hcall, List.map_cons, ← ih hdoc hrest,
          hshown.unique (Schema.shownAs_of_document hrun)]

/-! ### Names that are documented once -/

/-- No name is documented twice, or without being bound. -/
structure Tidy (c : Collector) : Prop where
  differ : (c.documents.map (·.1)).Nodup
  bound : ∀ e ∈ c.documents, (c.source? e.1).isSome = true

theorem source?_bound (c : Collector) (name : String) (s : Schema) :
    (source? { c with sources := c.sources ++ [(name, s)] } name).isSome = true := by
  rw [source?, lookup_concat, if_pos rfl, Option.isSome_or, Option.isSome_some, Bool.or_true]

theorem Tidy.bind (h : c.Tidy) (hname : c.source? name = none) (s : Schema) :
    Tidy { c with sources := c.sources ++ [(name, s)] } := by
  have hgrows : c.Grows (fun _ _ => True) { c with sources := c.sources ++ [(name, s)] } := .bind hname trivial
  exact ⟨h.differ, fun e he => hgrows.isSome_source? (h.bound e he)⟩

theorem Tidy.finish (h : c.Tidy) (hbound : (c.source? name).isSome = true) (hfresh : ∀ e ∈ c.documents, e.1 ≠ name)
    (d : Doc) : Tidy { c with documents := c.documents ++ [(name, d)] } where
  differ := by
    rw [List.map_append]
    refine h.differ.append (List.nodup_singleton _) ?_
    intro n hn hn'
    obtain ⟨e, he, rfl⟩ := List.mem_map.mp hn
    exact hfresh e he (List.mem_singleton.mp hn')
  bound := List.forall_mem_append.mpr ⟨h.bound, List.forall_mem_singleton.mpr hbound⟩

/-- A name that has been bound is documented by nothing that follows. -/
theorem Tidy.fresh (h : c.Tidy) (hname : c.source? name = none) {Allowed : String → Schema → Prop}
    (hgrows : Grows Allowed { c with sources := c.sources ++ [(name, s)] } c') : ∀ e ∈ c'.documents, e.1 ≠ name := by
  obtain ⟨finished, hfinished, hdone⟩ := hgrows.documents
  rw [hfinished]
  refine List.forall_mem_append.mpr ⟨?_, ?_⟩
  · rintro e he rfl
    have hbound := h.bound e he
    rw [hname] at hbound
    cases hbound
  · rintro e he rfl
    have hbound := source?_bound c e.1 s
    rw [(hdone e he).1] at hbound
    cases hbound

/-- A build keeps collectors tidy, whether it succeeds or not. -/
def Tidies {α : Type} (b : Build α) : Prop := ∀ c : Collector, c.Tidy → (b.run c).2.Tidy

namespace Tidies

variable {α β : Type}

theorem lift (x : Except Fault α) : Tidies (x : Build α) := by
  intro c hc
  rw [build_lift]
  exact hc

theorem bind {b : Build α} {f : α → Build β} (hb : Tidies b) (hf : ∀ a, Tidies (f a)) : Tidies (b >>= f) := by
  intro c hc
  have htidy := hb c hc
  rw [build_bind]
  rcases hrun : b.run c with ⟨fault | a, c₁⟩
  · rw [hrun] at htidy
    exact htidy
  · rw [hrun] at htidy
    exact hf a c₁ htidy

theorem mapM {f : α → Build β} {xs : List α} (h : ∀ x ∈ xs, Tidies (f x)) : Tidies (xs.mapM f) := by
  induction xs with
  | nil => exact lift (.ok [])
  | cons x xs ih =>
      rw [List.mapM_cons]
      refine (h x List.mem_cons_self).bind fun y => ?_
      exact (ih fun x hx => h x (List.mem_cons_of_mem _ hx)).bind fun ys => lift (.ok (y :: ys))

end Tidies

theorem tidies_add (h : Tidies (s.inlineDoc true)) : Tidies (Collector.add name s) := by
  intro c hc
  rw [Collector.add, run_bind]
  cases hname : c.source? name with
  | some existing => exact hc
  | none =>
      dsimp only
      have htidy := h _ (hc.bind hname s)
      have hcollects : Collects (fun _ _ => True) c.source? (s.inlineDoc true) fun _ => s.PartsBound c.source? :=
        collects_inlineDoc fun _ _ _ _ => trivial
      have hgrows := hcollects.grows { c with sources := c.sources ++ [(name, s)] }
      rcases hrun : (s.inlineDoc true).run { c with sources := c.sources ++ [(name, s)] } with ⟨fault | d, c₁⟩
      · rw [hrun] at htidy
        exact htidy
      · rw [hrun] at htidy hgrows
        exact htidy.finish (hgrows.isSome_source? (source?_bound c name s)) (hc.fresh hname hgrows) d

theorem tidies_document (s : Schema) : Tidies (s.document true) := by
  have hshare {s : Schema} (h : Tidies (s.inlineDoc true)) : Tidies (s.document true) := by
    cases hname : s.sharedName? with
    | some name =>
        rw [Schema.document_of_shared hname]
        exact tidies_add h
    | none =>
        rw [Schema.document_of_own hname]
        exact h
  refine hshare ?_
  induction s using Schema.childInduction with
  | node s ih =>
      rw [Schema.inlineDoc_eq]
      exact (Tidies.mapM fun t ht => hshare (ih t ht)).bind fun docs => .lift _

theorem tidy_serve (hc : c.Tidy) : (c.serve (ss.map .convert)).2.Tidy := by
  induction ss generalizing c with
  | nil => exact hc
  | cons s ss ih => exact ih (tidies_document s c hc)

theorem isSome_document?_iff : (c.document? name).isSome = true ↔ name ∈ c.documents.map (·.1) := by
  rw [document?, List.lookup_isSome_iff, List.mem_map]
  exact exists_congr fun e => and_congr_right fun _ => by rw [beq_iff_eq, eq_comm]

/-- Where no name is documented twice, the schemas of a collector are told by what stands under its names. -/
theorem Tidy.schemas_eq (h : c.Tidy) (h' : c'.Tidy) (heq : ∀ name, c.document? name = c'.document? name) :
    c.schemas = c'.schemas := by
  have hnames : (c.documents.map (·.1)).Perm (c'.documents.map (·.1)) :=
    (List.perm_ext_iff_of_nodup h.differ h'.differ).mpr fun name => by
      rw [← isSome_document?_iff, heq, isSome_document?_iff]
  have hsorted : Schema.sortTexts (c.documents.map (·.1)) = Schema.sortTexts (c'.documents.map (·.1)) :=
    eq_sortTexts ((List.mergeSort_perm _ _).trans hnames) (pairwise_sortTexts _)
  rw [schemas, schemas, hsorted]
  exact List.filterMap_congr fun name _ => congrArg (Option.map (name, ·)) (heq name)

/-! ### The order of conversions -/

/-- **The order of conversions does not matter.** Let a name stand for one tree throughout some schemas, and let
no value in them be something that is not a number. If a fresh collector converts all of them in one order, then
it does so in every other, with the same document for each schema, and it lists the same schemas. -/
theorem serve_of_perm {ss' : List Schema} (hperm : ss.Perm ss') (hnames : OneTreePerName ss)
    (hnan : ∀ s ∈ ss, s.NanFree) (hok : ∀ call f, (call, .error f) ∉ (serve {} (ss.map .convert)).1) :
    ∃ doc : Schema → Doc,
      (serve {} (ss.map .convert)).1 = ss.map (fun s => (.convert s, .ok (doc s))) ∧
        (serve {} (ss'.map .convert)).1 = ss'.map (fun s => (.convert s, .ok (doc s))) ∧
          (serve {} (ss'.map .convert)).2.schemas = (serve {} (ss.map .convert)).2.schemas := by
  have hnames' : OneTreePerName ss' := fun name t t' ht ht' =>
    hnames name t t' ((Schema.namedIn_congr hperm).mpr ht) ((Schema.namedIn_congr hperm).mpr ht')
  obtain ⟨hsettled, hheld⟩ := Settled.serve hnames (List.Subset.refl ss) .empty hok
  have hconverted : (serve {} (ss.map .convert)).2.Converted ss := ⟨hsettled, hheld⟩
  have hdocs : ∀ s, ∃ d, s ∈ ss → s.Documentable ∧ s.ShownAs d := by
    intro s
    by_cases hs : s ∈ ss
    · obtain ⟨d, hd⟩ := (hheld s hs).exists_shownAs
      exact ⟨d, fun _ => ⟨hconverted.documentable hnames hs, hd⟩⟩
    · exact ⟨.data .null, fun hmem => absurd hmem hs⟩
  choose doc hdoc using hdocs
  have hanswers : (serve {} (ss.map .convert)).1 = ss.map fun s => (.convert s, .ok (doc s)) :=
    serve_of_documentable hdoc (hnames.consistent hnan)
  have hanswers' : (serve {} (ss'.map .convert)).1 = ss'.map fun s => (.convert s, .ok (doc s)) :=
    serve_of_documentable (fun s hs => hdoc s (hperm.mem_iff.mpr hs))
      (hnames'.consistent fun s hs => hnan s (hperm.mem_iff.mpr hs))
  have hok' : ∀ call f, (call, .error f) ∉ (serve {} (ss'.map .convert)).1 := by
    intro call f hf
    rw [hanswers'] at hf
    obtain ⟨s, -, heq⟩ := List.mem_map.mp hf
    cases heq
  obtain ⟨hsettled', hheld'⟩ := Settled.serve hnames' (List.Subset.refl ss') .empty hok'
  have hconverted' : (serve {} (ss'.map .convert)).2.Converted ss' := ⟨hsettled', hheld'⟩
  refine ⟨doc, hanswers, hanswers', (tidy_serve ?_).schemas_eq (tidy_serve ?_) fun name => ?_⟩
  · exact ⟨List.nodup_nil, List.forall_mem_nil _⟩
  · exact ⟨List.nodup_nil, List.forall_mem_nil _⟩
  · refine Option.ext fun d => ?_
    rw [hconverted'.document?_eq_some_iff hnames', hconverted.document?_eq_some_iff hnames]
    exact exists_congr fun t => and_congr_left fun _ => (Schema.namedIn_congr hperm).symm

/-- Addresses have postal codes, and either of the two can be converted first. -/
theorem serve_of_perm_address :
    ∃ doc : Schema → Doc,
      (serve {} [.convert Schema.address, .convert Schema.postcode]).1 =
          [(.convert Schema.address, .ok (doc Schema.address)),
            (.convert Schema.postcode, .ok (doc Schema.postcode))] ∧
        (serve {} [.convert Schema.postcode, .convert Schema.address]).1 =
          [(.convert Schema.postcode, .ok (doc Schema.postcode)),
            (.convert Schema.address, .ok (doc Schema.address))] ∧
          (serve {} [.convert Schema.postcode, .convert Schema.address]).2.schemas =
            (serve {} [.convert Schema.address, .convert Schema.postcode]).2.schemas := by
  have hpostcode : Schema.postcode.nodes ⊆ Schema.address.nodes := by
    rw [Schema.nodes_address]
    exact List.subset_append_right [_, _] _
  have hnames : OneTreePerName [Schema.address, Schema.postcode] := by
    refine Schema.oneTreePerName_of_namedBy (List.forall_mem_cons.mpr ⟨Schema.namedBy_address, ?_⟩)
    exact List.forall_mem_singleton.mpr (Schema.namedBy_address.mono hpostcode)
  have hnan : Schema.address.NanFree := by
    intro t ht
    simp only [Schema.nodes_address, List.mem_cons, List.not_mem_nil, or_false] at ht
    rcases ht with rfl | rfl | rfl
    · exact List.forall_mem_singleton.mpr trivial
    · exact List.forall_mem_cons.mpr ⟨trivial, List.forall_mem_singleton.mpr trivial⟩
    · exact List.forall_mem_nil _
  have hrun : (serve {} ([Schema.address, Schema.postcode].map .convert)).1 =
      [(.convert Schema.address, .ok (.referTo "Address")),
        (.convert Schema.postcode, .ok (.referTo "Postcode"))] := by
    with_unfolding_all rfl
  refine serve_of_perm (List.Perm.swap _ _ []) hnames ?_ ?_
  · exact List.forall_mem_cons.mpr ⟨hnan, List.forall_mem_singleton.mpr (hnan.mono hpostcode)⟩
  · intro call f hf
    rw [hrun] at hf
    simp at hf

end Collector

end ApiContract
