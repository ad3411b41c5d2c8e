import ApiContract.Proofs.Annotated
import ApiContract.Proofs.Collection
import ApiContract.Proofs.Compilation

/-!
# Names without conflicts

A documentation build comes to shared schemas in a fixed order, each under its name (`Schema.namedNodes`). If the
schemas that it comes to under one name are equal (`Consistent`), then no name is ever refused: what a build binds is
taken from the names it comes to, in their order, so that the names still to come are consistent with it. `Proceeds`
says this of a build and is composed step by step like the builds themselves. It leaves open which other faults a
build may have; the document of a schema has none (`proceeds_document`).
-/

namespace ApiContract

/-- Schemas under their names, of which any two with the same name are equal. -/
def Consistent (names : List (String × Schema)) : Prop :=
  names.Pairwise fun a b => a.1 = b.1 → a.2.same b.2 = true

/-- A build that comes to the given names, one after the other, binds some of them and has only possible faults, as
long as the names are consistent with those that have been bound. -/
structure Proceeds {α : Type} (Possible : Fault → Prop) (names : List (String × Schema)) (b : Build α) : Prop where
  binds : ∀ ⦃c c' : Collector⦄ ⦃a : α⦄, Consistent (c.sources ++ names) → b.run c = (.ok a, c') →
    ∃ bound, bound.Sublist names ∧ c'.sources = c.sources ++ bound
  possible : ∀ ⦃c c' : Collector⦄ ⦃f : Fault⦄, Consistent (c.sources ++ names) → b.run c = (.error f, c') →
    Possible f

namespace Proceeds

variable {α β : Type} {Possible : Fault → Prop} {names later : List (String × Schema)}

theorem lift {x : Except Fault α} (h : ∀ f, x = .error f → Possible f) : Proceeds Possible [] (x : Build α) where
  binds := fun c c' a _ hrun => by
    obtain ⟨-, rfl⟩ := build_lift_eq_ok hrun
    exact ⟨[], .slnil, (List.append_nil _).symm⟩
  possible := fun c c' f _ hrun => by
    rw [build_lift] at hrun
    exact h f (Prod.mk.inj hrun).1

theorem pure (a : α) : Proceeds Possible [] (pure a : Build α) :=
  lift fun _ h => by cases h

theorem get : Proceeds Possible [] (get : Build Collector) where
  binds := fun c c' a _ hrun => by
    obtain ⟨-, rfl⟩ := Prod.mk.inj hrun
    exact ⟨[], .slnil, (List.append_nil _).symm⟩
  possible := fun c c' f _ hrun => by cases hrun

/-- A build may come to fewer names than allowed for. -/
theorem mono {b : Build α} (h : Proceeds Possible names b) (hsub : names.Sublist later) :
    Proceeds Possible later b where
  binds := fun c c' a hnames hrun => by
    obtain ⟨bound, hbound, hsources⟩ := h.binds (hnames.sublist (hsub.append_left _)) hrun
    exact ⟨bound, hbound.trans hsub, hsources⟩
  possible := fun c c' f hnames hrun => h.possible (hnames.sublist (hsub.append_left _)) hrun

/-- The names that a build has bound leave room for those of the next one. -/
theorem bind {b : Build α} {f : α → Build β} (hb : Proceeds Possible names b)
    (hf : ∀ a, (∃ c c', b.run c = (.ok a, c')) → Proceeds Possible later (f a)) :
    Proceeds Possible (names ++ later) (b >>= f) := by
  have hfirst {c : Collector} (hnames : Consistent (c.sources ++ (names ++ later))) :
      Consistent (c.sources ++ names) :=
    hnames.sublist ((List.sublist_append_left _ _).append_left _)
  have hnext {c c₁ : Collector} {a : α} (hnames : Consistent (c.sources ++ (names ++ later)))
      (hrun : b.run c = (.ok a, c₁)) : Consistent (c₁.sources ++ later) := by
    obtain ⟨bound, hbound, hsources⟩ := hb.binds (hfirst hnames) hrun
    rw [hsources, List.append_assoc]
    exact hnames.sublist ((hbound.append_right _).append_left _)
  constructor
  · intro c c' y hnames hrun
    obtain ⟨a, c₁, hstep, hrest⟩ := build_bind_eq_ok hrun
    obtain ⟨bound, hbound, hsources⟩ := hb.binds (hfirst hnames) hstep
    obtain ⟨bound', hbound', hsources'⟩ := (hf a ⟨_, _, hstep⟩).binds (hnext hnames hstep) hrest
    exact ⟨bound ++ bound', hbound.append hbound', by rw [hsources', hsources, List.append_assoc]⟩
  · intro c c' fault hnames hrun
    rw [build_bind] at hrun
    rcases hstep : b.run c with ⟨f' | a, c₁⟩
    · rw [hstep] at hrun
      obtain rfl := Except.error.inj (Prod.mk.inj hrun).1
      exact hb.possible (hfirst hnames) hstep
    · rw [hstep] at hrun
      exact (hf a ⟨_, _, hstep⟩).possible (hnext hnames hstep) hrun

/-- What follows a build without coming to a name. -/
theorem followed {b : Build α} {f : α → Build β} (hb : Proceeds Possible names b)
    (hf : ∀ a, (∃ c c', b.run c = (.ok a, c')) → Proceeds Possible [] (f a)) :
    Proceeds Possible names (b >>= f) := by
  have h := hb.bind hf
  rwa [List.append_nil] at h

/-- A row of builds comes to the names of the single ones. -/
theorem mapM {f : α → Build β} {names : α → List (String × Schema)} {xs : List α}
    (h : ∀ x ∈ xs, Proceeds Possible (names x) (f x)) : Proceeds Possible (xs.flatMap names) (xs.mapM f) := by
  induction xs with
  | nil => exact .pure []
  | cons x xs ih =>
      rw [List.mapM_cons, List.flatMap_cons]
      refine (h x List.mem_cons_self).bind fun y _ => ?_
      exact (ih fun x hx => h x (List.mem_cons_of_mem _ hx)).followed fun ys _ => .pure _

theorem foldlM {f : β → α → Build β} {names : α → List (String × Schema)} {xs : List α}
    (h : ∀ y, ∀ x ∈ xs, Proceeds Possible (names x) (f y x)) (y : β) :
    Proceeds Possible (xs.flatMap names) (xs.foldlM f y) := by
  induction xs generalizing y with
  | nil => exact .pure y
  | cons x xs ih =>
      rw [List.foldlM_cons, List.flatMap_cons]
      exact (h y x List.mem_cons_self).bind fun y' _ => ih (fun y x hx => h y x (List.mem_cons_of_mem _ hx)) y'

theorem forIn {f : α → PUnit → Build (ForInStep PUnit)} {names : α → List (String × Schema)} {xs : List α}
    (h : ∀ x ∈ xs, Proceeds Possible (names x) (f x ⟨⟩)) :
    Proceeds Possible (xs.flatMap names) (forIn xs PUnit.unit f) := by
  induction xs with
  | nil => exact .pure _
  | cons x xs ih =>
      rw [List.forIn_cons, List.flatMap_cons]
      refine (h x List.mem_cons_self).bind fun next _ => ?_
      cases next with
      | done => exact (Proceeds.pure _).mono (List.nil_sublist _)
      | yield => exact ih fun x hx => h x (List.mem_cons_of_mem _ hx)

/-- Adding a schema comes to its name and then to the names below. A name that is taken has an equal schema. -/
theorem add {name : String} {s : Schema} (h : Proceeds Possible names (s.inlineDoc true)) :
    Proceeds Possible ((name, s) :: names) (Collector.add name s) := by
  have hopen {c : Collector} (hnames : Consistent (c.sources ++ (name, s) :: names)) :
      Consistent ((c.sources ++ [(name, s)]) ++ names) := by
    rwa [List.append_assoc]
  have hequal {c : Collector} {existing : Schema} (hnames : Consistent (c.sources ++ (name, s) :: names))
      (hexisting : c.source? name = some existing) : existing.same s = true := by
    exact (List.pairwise_append.mp hnames).2.2 _ (mem_of_lookup hexisting) _ List.mem_cons_self rfl
  constructor
  · intro c c' d hnames hrun
    rw [Collector.add, Collector.run_bind] at hrun
    cases hname : c.source? name with
    | some existing =>
        rw [hname] at hrun
        obtain ⟨-, rfl⟩ := Prod.mk.inj hrun
        exact ⟨[], List.nil_sublist _, (List.append_nil _).symm⟩
    | none =>
        rw [hname] at hrun
        dsimp only at hrun
        rcases hdoc : (s.inlineDoc true).run { c with sources := c.sources ++ [(name, s)] } with ⟨f | doc, c₁⟩
        · rw [hdoc] at hrun
          cases hrun
        · rw [hdoc] at hrun
          obtain ⟨-, rfl⟩ := Prod.mk.inj hrun
          obtain ⟨bound, hbound, hsources⟩ := h.binds (hopen hnames) hdoc
          refine ⟨(name, s) :: bound, hbound.cons_cons _, ?_⟩
          dsimp only
          rw [hsources, List.append_assoc]
          rfl
  · intro c c' f hnames hrun
    rw [Collector.add, Collector.run_bind] at hrun
    cases hname : c.source? name with
    | some existing =>
        rw [hname] at hrun
        dsimp only at hrun
        rw [if_pos (hequal hnames hname)] at hrun
        cases hrun
    | none =>
        rw [hname] at hrun
        dsimp only at hrun
        rcases hdoc : (s.inlineDoc true).run { c with sources := c.sources ++ [(name, s)] } with ⟨f' | doc, c₁⟩
        · rw [hdoc] at hrun
          obtain rfl := Except.error.inj (Prod.mk.inj hrun).1
          exact h.possible (hopen hnames) hdoc
        · rw [hdoc] at hrun
          cases hrun

end Proceeds

/-! ### Documents of schemas -/

namespace Schema

/-- The named nodes of a schema under their names, in the order in which its documentation comes to them. -/
def namedNodes (s : Schema) : List (String × Schema) := s.nodes.filterMap fun t => t.sharedName?.map (·, t)

/-- The named nodes below the root. -/
def namedBelow (s : Schema) : List (String × Schema) := s.children.flatMap namedNodes

/-- A schema whose nodes can all be documented: each is of a kind, and its default and examples can be written. -/
def Documentable (s : Schema) : Prop :=
  ∀ t ∈ s.nodes, t.isNode = true ∧ ∀ a ∈ t.annotations?, a.Serializable

theorem namedNodes_eq (s : Schema) :
    s.namedNodes = (s.sharedName?.map (·, s)).toList ++ s.namedBelow := by
  have hbelow : (s.children.flatMap nodes).filterMap (fun t => t.sharedName?.map (·, t)) = s.namedBelow := by
    rw [List.filterMap_flatMap]
    rfl
  rw [namedNodes, nodes_eq, List.filterMap_cons, hbelow]
  cases s.sharedName? <;> rfl

theorem Documentable.child {s t : Schema} (h : s.Documentable) (ht : t ∈ s.children) : t.Documentable :=
  fun u hu => h u (nodes_child_subset ht hu)

/-- A node of a kind is assembled from one document for each child. -/
theorem exists_assemble {s : Schema} (hkind : s.isNode = true) (hannotations : ∀ a ∈ s.annotations?, a.Serializable)
    {docs : List Doc} (hlength : s.children.length = docs.length) : ∃ d, s.assemble docs = .ok d := by
  obtain ⟨a, ha⟩ : ∃ a, s.annotations? = some a := by
    cases s with
    | foreign v => cases hkind
    | _ => exact ⟨_, rfl⟩
  obtain ⟨doc, hdoc⟩ : ∃ doc, s.body docs = some doc := by
    cases s with
    | bare a => cases hkind
    | foreign v => cases hkind
    | array a f items =>
        obtain ⟨doc, rfl⟩ := List.length_eq_one_iff.mp hlength.symm
        exact ⟨_, rfl⟩
    | nullable a inner =>
        obtain ⟨doc, rfl⟩ := List.length_eq_one_iff.mp hlength.symm
        exact ⟨_, rfl⟩
    | refined a r base =>
        obtain ⟨doc, rfl⟩ := List.length_eq_one_iff.mp hlength.symm
        exact ⟨_, rfl⟩
    | _ => exact ⟨_, rfl⟩
  exact ⟨_, assemble_eq_ok.mpr ⟨a, doc, ha, hdoc, annotate_eq_ok.mpr ⟨hannotations a ha, rfl⟩⟩⟩

variable {Possible : Fault → Prop}

theorem proceeds_document_of {s : Schema} (h : Proceeds Possible s.namedBelow (s.inlineDoc true)) :
    Proceeds Possible s.namedNodes (s.document true) := by
  rw [namedNodes_eq]
  cases hname : s.sharedName? with
  | some name =>
      rw [document_of_shared hname]
      exact h.add
  | none =>
      rw [document_of_own hname]
      exact h

theorem proceeds_inlineDoc {s : Schema} (h : s.Documentable) :
    Proceeds Possible s.namedBelow (s.inlineDoc true) := by
  induction s using childInduction with
  | node s ih =>
      have hchildren : Proceeds Possible s.namedBelow (s.children.mapM fun t => t.document true) :=
        .mapM fun t ht => proceeds_document_of (ih t ht (h.child ht))
      rw [inlineDoc_eq]
      refine hchildren.followed fun docs hdocs => .lift fun f hf => ?_
      -- the children have one document each, so nothing can go wrong
      obtain ⟨c, c', hrun⟩ := hdocs
      obtain ⟨hkind, hannotations⟩ := h s s.mem_nodes_self
      obtain ⟨d, hd⟩ := exists_assemble hkind hannotations (build_mapM_eq_ok hrun).length_eq
      rw [hd] at hf
      cases hf

/-- Documenting a schema has no fault as long as its names are consistent with those that have been bound. -/
theorem proceeds_document {s : Schema} (h : s.Documentable) :
    Proceeds Possible s.namedNodes (s.document true) :=
  proceeds_document_of (proceeds_inlineDoc h)

/-! ### Schemas that compile -/

/-- The children of a schema that compiles compile. -/
theorem exists_compileAt_child {s t : Schema} {path : String} {v : Validator} (h : s.compileAt path = .ok v)
    (ht : t ∈ s.children) : ∃ path' v', t.compileAt path' = .ok v' := by
  cases s with
  | array a f items =>
      obtain rfl := List.mem_singleton.mp ht
      obtain ⟨_, child, -, hchild, -⟩ := compileAt_array h
      exact ⟨_, child, hchild⟩
  | object a f ps =>
      obtain ⟨p, hp, rfl⟩ := List.mem_map.mp ht
      obtain ⟨children, hchildren, -⟩ := compileAt_object h
      obtain ⟨c, -, -, hc⟩ := exists_right_of_forall₂ hchildren hp
      exact ⟨_, _, hc⟩
  | nullable a inner =>
      obtain rfl := List.mem_singleton.mp ht
      obtain ⟨child, hchild, -⟩ := compileAt_nullable h
      exact ⟨_, child, hchild⟩
  | refined a r base =>
      obtain rfl := List.mem_singleton.mp ht
      obtain ⟨_, _, child, -, -, hchild, -⟩ := compileAt_refined h
      exact ⟨_, child, hchild⟩
  | _ => cases ht

/-- Every node of a schema that compiles compiles. -/
theorem exists_compileAt_of_mem_nodes {s t : Schema} {path : String} {v : Validator} (h : s.compileAt path = .ok v)
    (ht : t ∈ s.nodes) : ∃ path' v', t.compileAt path' = .ok v' := by
  induction s using childInduction generalizing path v with
  | node s ih =>
      rcases mem_nodes_iff.mp ht with rfl | ⟨child, hchild, ht⟩
      · exact ⟨path, v, h⟩
      · obtain ⟨path', v', hcompile⟩ := exists_compileAt_child h hchild
        exact ih child hchild hcompile ht

/-- Every node of a schema that compiles is of a kind. -/
theorem isNode_of_compileAt {s : Schema} {path : String} {v : Validator} (h : s.compileAt path = .ok v) :
    ∀ t ∈ s.nodes, t.isNode = true := by
  intro t ht
  obtain ⟨path', v', hcompile⟩ := exists_compileAt_of_mem_nodes h ht
  cases t with
  | bare a => exact absurd hcompile compileAt_bare_ne
  | foreign w => exact absurd hcompile compileAt_foreign_ne
  | _ => rfl

end Schema

end ApiContract
