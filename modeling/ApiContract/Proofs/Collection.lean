import ApiContract.Proofs.Children
import ApiContract.Proofs.Independence

/-!
# What a build collects

A build only adds to its collector, and documents only names that were free before (`Collector.Grows`),
whether it succeeds or not. One that succeeds leaves no name behind that it has bound and not documented
(`Collector.Completes`), and what stands under a name is a document of the schema that is bound to it
(`Collector.Sound`). `Collects` says all of this of a build, together with a property of its result
that may speak of the final bindings; it is composed step by step like the builds themselves.

Documenting a schema binds the name of every shared part that it comes to, to the very part or to an equal
schema (`PartsBound`).
-/

namespace ApiContract

namespace Collector

/-- The schema that is bound to a name. -/
def source? (c : Collector) (name : String) : Option Schema := c.sources.lookup name

/-- The finished document of a name. -/
def document? (c : Collector) (name : String) : Option Doc := c.documents.lookup name

/-- A taken name is answered at once. A free one is bound, and then the schema is documented. -/
theorem run_bind (name : String) (s : Schema) (document : Build Doc) (c : Collector) :
    (bind name s document).run c =
      match c.source? name with
      | some existing =>
        (if existing.same s then .ok (.referTo name) else .error (.documentation (.nameTakenTwice name)), c)
      | none =>
        match document.run { c with sources := c.sources ++ [(name, s)] } with
        | (.ok doc, c') => (.ok (.referTo name), { c' with documents := c'.documents ++ [(name, doc)] })
        | (.error fault, c') => (.error fault, c') := by
  have hget : (get : Build Collector).run c = (.ok c, c) := rfl
  have hmodify : (modify fun c => { c with sources := c.sources ++ [(name, s)] } : Build Unit).run c =
      (.ok (), { c with sources := c.sources ++ [(name, s)] }) := rfl
  rw [bind, build_bind_ok hget, source?]
  cases c.sources.lookup name with
  | some existing =>
      dsimp only
      split
      · rfl
      · rfl
  | none =>
      dsimp only
      rw [build_bind_ok hmodify, build_bind]
      rcases document.run { c with sources := c.sources ++ [(name, s)] } with ⟨fault | doc, c'⟩
      · rfl
      · rfl

/-! ### Growing collectors -/

/-- A collector goes on from another one: what is there stays, and what is new is allowed and stands under
names that were free. -/
structure Grows (Allowed : String → Schema → Prop) (c c' : Collector) : Prop where
  sources : ∃ bound, c'.sources = c.sources ++ bound ∧ ∀ b ∈ bound, c.source? b.1 = none ∧ Allowed b.1 b.2
  documents : ∃ finished, c'.documents = c.documents ++ finished ∧
    ∀ f ∈ finished, c.source? f.1 = none ∧ (c'.source? f.1).isSome = true

variable {Allowed : String → Schema → Prop} {c c₁ c' : Collector} {name : String}

theorem Grows.source? (h : c.Grows Allowed c') {s : Schema} (hs : c.source? name = some s) :
    c'.source? name = some s := by
  obtain ⟨bound, hbound, -⟩ := h.sources
  rw [Collector.source?, hbound, List.lookup_append]
  rw [Collector.source?] at hs
  rw [hs, Option.some_or]

theorem Grows.document? (h : c.Grows Allowed c') {d : Doc} (hd : c.document? name = some d) :
    c'.document? name = some d := by
  obtain ⟨finished, hfinished, -⟩ := h.documents
  rw [Collector.document?, hfinished, List.lookup_append]
  rw [Collector.document?] at hd
  rw [hd, Option.some_or]

theorem Grows.isSome_source? (h : c.Grows Allowed c') (hs : (c.source? name).isSome = true) :
    (c'.source? name).isSome = true := by
  obtain ⟨s, hs⟩ := Option.isSome_iff_exists.mp hs
  exact Option.isSome_iff_exists.mpr ⟨s, h.source? hs⟩

theorem Grows.free (h : c.Grows Allowed c') (hname : c'.source? name = none) : c.source? name = none := by
  by_contra hbound
  have hstill := h.isSome_source? (Option.isSome_iff_ne_none.mpr hbound)
  rw [hname] at hstill
  cases hstill

theorem Grows.refl (c : Collector) : c.Grows Allowed c where
  sources := ⟨[], (List.append_nil _).symm, List.forall_mem_nil _⟩
  documents := ⟨[], (List.append_nil _).symm, List.forall_mem_nil _⟩

theorem Grows.trans (h : c.Grows Allowed c₁) (h' : c₁.Grows Allowed c') : c.Grows Allowed c' := by
  obtain ⟨bound, hbound, hnew⟩ := h.sources
  obtain ⟨bound', hbound', hnew'⟩ := h'.sources
  obtain ⟨finished, hfinished, hdone⟩ := h.documents
  obtain ⟨finished', hfinished', hdone'⟩ := h'.documents
  constructor
  · refine ⟨bound ++ bound', by rw [hbound', hbound, List.append_assoc], ?_⟩
    exact List.forall_mem_append.mpr ⟨hnew, fun b hb => ⟨h.free (hnew' b hb).1, (hnew' b hb).2⟩⟩
  · refine ⟨finished ++ finished', by rw [hfinished', hfinished, List.append_assoc], ?_⟩
    exact List.forall_mem_append.mpr ⟨fun f hf => ⟨(hdone f hf).1, h'.isSome_source? (hdone f hf).2⟩,
      fun f hf => ⟨h.free (hdone' f hf).1, (hdone' f hf).2⟩⟩

/-- A free name can be bound. -/
theorem Grows.bind {s : Schema} (hname : c.source? name = none) (hs : Allowed name s) :
    c.Grows Allowed { c with sources := c.sources ++ [(name, s)] } where
  sources := ⟨[(name, s)], rfl, List.forall_mem_singleton.mpr ⟨hname, hs⟩⟩
  documents := ⟨[], (List.append_nil _).symm, List.forall_mem_nil _⟩

/-- A name that has been bound on the way can be documented. -/
theorem Grows.finish (h : c.Grows Allowed c') (hname : c.source? name = none)
    (hbound : (c'.source? name).isSome = true) (d : Doc) :
    c.Grows Allowed { c' with documents := c'.documents ++ [(name, d)] } := by
  obtain ⟨finished, hfinished, hdone⟩ := h.documents
  refine ⟨h.sources, finished ++ [(name, d)], by rw [hfinished, List.append_assoc], ?_⟩
  exact List.forall_mem_append.mpr ⟨hdone, List.forall_mem_singleton.mpr ⟨hname, hbound⟩⟩

end Collector

/-! ### Documents of schemas -/

namespace Schema

/-- Some build documents a schema so, whatever it has collected. -/
def Yields (s : Schema) (d : Doc) : Prop := ∃ c c', (s.inlineDoc true).run c = (.ok d, c')

/-- What stands in a document in the place of a part: a reference if the part is shared, else a document of
the part. -/
def ShownAs (t : Schema) (d : Doc) : Prop :=
  (∃ name, t.sharedName? = some name ∧ d = .referTo name) ∨ (t.sharedName? = none ∧ t.Yields d)

/-- A schema is documented in one way only. -/
theorem Yields.unique {s : Schema} {d d' : Doc} (h : s.Yields d) (h' : s.Yields d') : d = d' := by
  obtain ⟨c, c', h⟩ := h
  obtain ⟨c₁, c₁', h'⟩ := h'
  exact determined_inlineDoc true s h h'

theorem document_of_shared {s : Schema} {name : String} (hname : s.sharedName? = some name) :
    s.document true = Collector.add name s := by
  rw [document, shareOr, if_pos rfl, hname]
  rfl

theorem document_of_own {s : Schema} (hname : s.sharedName? = none) : s.document true = s.inlineDoc true := by
  rw [document, shareOr, if_pos rfl, hname]

end Schema

/-- A schema that is added is referred to by its name. -/
theorem eq_referTo_of_add {name : String} {s : Schema} {d : Doc} {c c' : Collector}
    (h : (Collector.add name s).run c = (.ok d, c')) : d = .referTo name := by
  rw [Collector.add, Collector.run_bind] at h
  split at h
  · split_ifs at h
    · cases h
      rfl
    · cases h
  · split at h
    · cases h
      rfl
    · cases h

namespace Schema

theorem shownAs_of_document {t : Schema} {d : Doc} {c c' : Collector}
    (h : (t.document true).run c = (.ok d, c')) : t.ShownAs d := by
  cases hname : t.sharedName? with
  | some name =>
      rw [document_of_shared hname] at h
      exact .inl ⟨name, hname, eq_referTo_of_add h⟩
  | none =>
      rw [document_of_own hname] at h
      exact .inr ⟨hname, c, c', h⟩

/-- A node is assembled from what stands for its children. -/
theorem Yields.children {s : Schema} {d : Doc} (h : s.Yields d) :
    ∃ docs, List.Forall₂ ShownAs s.children docs ∧ s.assemble docs = .ok d := by
  obtain ⟨c, c', h⟩ := h
  rw [inlineDoc_eq] at h
  obtain ⟨docs, c₁, hdocs, h⟩ := build_bind_eq_ok h
  refine ⟨docs, (build_mapM_eq_ok hdocs).imp fun t doc hdoc => ?_, (build_lift_eq_ok h).1⟩
  obtain ⟨c₂, c₃, hdoc⟩ := hdoc
  exact shownAs_of_document hdoc

/-- A schema that is bound to a name serves for another of this name if it is this very schema or an equal
one. -/
def Serves (u t : Schema) : Prop := t = u ∨ u.same t = true

/-- A name is bound to a schema that serves for the given one. -/
def BoundTo (source? : String → Option Schema) (name : String) (t : Schema) : Prop :=
  ∃ u, source? name = some u ∧ u.Serves t

/-- The shared parts that documenting a schema comes to have their names bound. Parts of shared parts are
left out. -/
inductive PartsBound (source? : String → Option Schema) : Schema → Prop
  | node {s : Schema}
      (shared : ∀ t ∈ s.children, ∀ name, t.sharedName? = some name → BoundTo source? name t)
      (own : ∀ t ∈ s.children, t.sharedName? = none → PartsBound source? t) : PartsBound source? s

/-- A schema has its name bound if it is shared, and else the names of its shared parts. -/
structure Bound (source? : String → Option Schema) (s : Schema) : Prop where
  shared : ∀ name, s.sharedName? = some name → BoundTo source? name s
  own : s.sharedName? = none → PartsBound source? s

variable {source? source?' : String → Option Schema}

theorem Bound.of_shared {s : Schema} {name : String} (hname : s.sharedName? = some name)
    (h : BoundTo source? name s) : Bound source? s where
  shared := fun _ hname' => Option.some.inj (hname.symm.trans hname') ▸ h
  own := fun hnone => by
    rw [hname] at hnone
    cases hnone

theorem Bound.of_own {s : Schema} (hname : s.sharedName? = none) (h : PartsBound source? s) :
    Bound source? s where
  shared := fun _ hname' => by
    rw [hname] at hname'
    cases hname'
  own := fun _ => h

theorem PartsBound.of_children {s : Schema} (h : ∀ t ∈ s.children, Bound source? t) :
    PartsBound source? s :=
  .node (fun t ht => (h t ht).shared) fun t ht => (h t ht).own

theorem PartsBound.child {s t : Schema} (h : PartsBound source? s) (ht : t ∈ s.children) :
    Bound source? t := by
  obtain ⟨shared, own⟩ := h
  exact ⟨shared t ht, own t ht⟩

theorem PartsBound.mono {s : Schema} (h : PartsBound source? s)
    (hmono : ∀ name u, source? name = some u → source?' name = some u) : PartsBound source?' s := by
  induction h with
  | node shared _ ih =>
      refine .node (fun t ht name hname => ?_) ih
      obtain ⟨u, hu, hserves⟩ := shared t ht name hname
      exact ⟨u, hmono name u hu, hserves⟩

end Schema

namespace Collector

variable {Allowed : String → Schema → Prop} {c c₁ c' : Collector} {name : String}

/-- What stands under a name is a document of the schema that is bound to it, and the parts of that schema
are bound. -/
def Sound (c : Collector) : Prop :=
  ∀ name d, c.document? name = some d →
    ∃ s, c.source? name = some s ∧ s.Yields d ∧ s.PartsBound c.source?

/-- A build that succeeds documents the names that it binds, and keeps what stands under names sound. -/
structure Completes (c c' : Collector) : Prop where
  documented : ∀ name, (c'.source? name).isSome = true →
    (c.source? name).isSome = true ∨ (c'.document? name).isSome = true
  sound : c.Sound → c'.Sound

theorem Completes.refl (c : Collector) : c.Completes c where
  documented := fun _ h => .inl h
  sound := id

theorem Completes.trans (h : c.Completes c₁) (h' : c₁.Completes c') (hgrows : c₁.Grows Allowed c') :
    c.Completes c' where
  documented := fun name hname => by
    rcases h'.documented name hname with hname | hname
    · refine (h.documented name hname).imp_right fun hdoc => ?_
      obtain ⟨d, hd⟩ := Option.isSome_iff_exists.mp hdoc
      exact Option.isSome_iff_exists.mpr ⟨d, hgrows.document? hd⟩
    · exact .inr hname
  sound := h'.sound ∘ h.sound

theorem Sound.bind (h : c.Sound) (name : String) (s : Schema) :
    Sound { c with sources := c.sources ++ [(name, s)] } := by
  intro n d hd
  obtain ⟨u, hu, hyields, hparts⟩ := h n d hd
  have hmono : ∀ name' u', c.source? name' = some u' →
      Collector.source? { c with sources := c.sources ++ [(name, s)] } name' = some u' := by
    intro name' u' hu'
    rw [source?] at hu'
    rw [source?, List.lookup_append, hu', Option.some_or]
  exact ⟨u, hmono n u hu, hyields, hparts.mono hmono⟩

theorem Sound.finish (h : c.Sound) {s : Schema} {d : Doc} (hs : c.source? name = some s) (hd : s.Yields d)
    (hparts : s.PartsBound c.source?) : Sound { c with documents := c.documents ++ [(name, d)] } := by
  intro n e he
  rw [document?, lookup_concat, Option.or_eq_some_iff] at he
  rcases he with he | ⟨-, he⟩
  · exact h n e he
  · split_ifs at he with hn
    obtain rfl := Option.some.inj he
    rw [hn]
    exact ⟨s, hs, hd, hparts⟩

end Collector

/-! ### Building up -/

/-- What a build collects, and a property of its result. The property may speak of the bindings in the end,
of which those that the build leaves are a part. -/
structure Collects {α : Type} (Allowed : String → Schema → Prop) (source? : String → Option Schema)
    (b : Build α) (Q : α → Prop) : Prop where
  grows : ∀ c : Collector, c.Grows Allowed (b.run c).2
  completes : ∀ ⦃c c' : Collector⦄ ⦃a : α⦄, b.run c = (.ok a, c') →
    c.Completes c' ∧ ((∀ name s, c'.source? name = some s → source? name = some s) → Q a)

namespace Collects

variable {α β : Type} {Allowed : String → Schema → Prop} {source? : String → Option Schema}

theorem grows_of_run {b : Build α} {Q : α → Prop} (h : Collects Allowed source? b Q) {c c' : Collector}
    {r : Except Fault α} (hrun : b.run c = (r, c')) : c.Grows Allowed c' := by
  have hgrows := h.grows c
  rwa [hrun] at hgrows

theorem lift {x : Except Fault α} {Q : α → Prop} (h : ∀ a, x = .ok a → Q a) :
    Collects Allowed source? (x : Build α) Q where
  grows := fun c => by
    rw [build_lift]
    exact .refl c
  completes := fun c c' a hrun => by
    obtain ⟨hx, rfl⟩ := build_lift_eq_ok hrun
    exact ⟨.refl _, fun _ => h a hx⟩

theorem pure {a : α} {Q : α → Prop} (h : Q a) : Collects Allowed source? (pure a) Q :=
  lift fun _ ha => Except.ok.inj ha ▸ h

theorem throw {f : Fault} {Q : α → Prop} : Collects Allowed source? (throw f) Q :=
  lift fun _ ha => by cases ha

theorem bind {b : Build α} {f : α → Build β} {Q : α → Prop} {R : β → Prop}
    (hb : Collects Allowed source? b Q) (hf : ∀ a, Collects Allowed source? (f a) fun y => Q a → R y) :
    Collects Allowed source? (b >>= f) R where
  grows := fun c => by
    have hgrows := hb.grows c
    rw [build_bind]
    rcases hrun : b.run c with ⟨fault | a, c₁⟩
    · rw [hrun] at hgrows
      exact hgrows
    · rw [hrun] at hgrows
      exact hgrows.trans ((hf a).grows c₁)
  completes := fun c c' y hrun => by
    obtain ⟨a, c₁, hfirst, hrest⟩ := build_bind_eq_ok hrun
    obtain ⟨hcompletes, hQ⟩ := hb.completes hfirst
    obtain ⟨hcompletes', hR⟩ := (hf a).completes hrest
    have hgrows := (hf a).grows_of_run hrest
    exact ⟨hcompletes.trans hcompletes' hgrows,
      fun hfinal => hR hfinal (hQ fun name s hs => hfinal name s (hgrows.source? hs))⟩

theorem imp {b : Build α} {Q R : α → Prop} (h : Collects Allowed source? b Q) (himp : ∀ a, Q a → R a) :
    Collects Allowed source? b R where
  grows := h.grows
  completes := fun _ _ _ hrun =>
    ⟨(h.completes hrun).1, fun hfinal => himp _ ((h.completes hrun).2 hfinal)⟩

/-- What a run tells of its result can be added. -/
theorem and_of_run {b : Build α} {P Q : α → Prop} (hP : ∀ c c' a, b.run c = (.ok a, c') → P a)
    (h : Collects Allowed source? b Q) : Collects Allowed source? b fun a => P a ∧ Q a where
  grows := h.grows
  completes := fun _ _ _ hrun =>
    ⟨(h.completes hrun).1, fun hfinal => ⟨hP _ _ _ hrun, (h.completes hrun).2 hfinal⟩⟩

/-- A row of builds collects what the single ones do. -/
theorem mapM {f : α → Build β} {xs : List α} {R : α → β → Prop}
    (h : ∀ x ∈ xs, Collects Allowed source? (f x) (R x)) :
    Collects Allowed source? (xs.mapM f) fun ys => List.Forall₂ R xs ys := by
  induction xs with
  | nil => exact .pure .nil
  | cons x xs ih =>
      rw [List.mapM_cons]
      refine (h x List.mem_cons_self).bind fun y => ?_
      refine (ih fun x hx => h x (List.mem_cons_of_mem _ hx)).bind fun ys => ?_
      exact .pure fun hys hy => .cons hy hys

theorem foldlM {f : β → α → Build β} {xs : List α} {Q : β → Prop}
    (h : ∀ y, ∀ x ∈ xs, Collects Allowed source? (f y x) fun y' => Q y → Q y') (y : β) :
    Collects Allowed source? (xs.foldlM f y) fun y' => Q y → Q y' := by
  induction xs generalizing y with
  | nil => exact .pure id
  | cons x xs ih =>
      rw [List.foldlM_cons]
      refine (h y x List.mem_cons_self).bind fun y' => ?_
      exact (ih (fun y x hx => h y x (List.mem_cons_of_mem _ hx)) y').imp fun _ hlast hfirst =>
        hlast ∘ hfirst

end Collects

open Schema (BoundTo PartsBound Bound)

variable {Allowed : String → Schema → Prop} {source? : String → Option Schema}

/-- A schema that documents soundly can be added under a name. -/
theorem collects_add {name : String} {s : Schema} (hallowed : Allowed name s)
    (h : ∀ source?, Collects Allowed source? (s.inlineDoc true) fun _ => PartsBound source? s) :
    Collects Allowed source? (Collector.add name s) fun d => d = .referTo name ∧ BoundTo source? name s where
  grows := fun c => by
    rw [Collector.add, Collector.run_bind]
    cases hname : c.source? name with
    | some existing => exact .refl c
    | none =>
        have hopen : c.Grows Allowed { c with sources := c.sources ++ [(name, s)] } := .bind hname hallowed
        dsimp only
        rcases hrun : (s.inlineDoc true).run { c with sources := c.sources ++ [(name, s)] } with
          ⟨fault | d, c₁⟩
        · exact hopen.trans ((h source?).grows_of_run hrun)
        · have hgrows := (h source?).grows_of_run hrun
          refine (hopen.trans hgrows).finish hname ?_ d
          refine hgrows.isSome_source? ?_
          rw [Collector.source?, lookup_concat, if_pos rfl, Option.isSome_or, Option.isSome_some, Bool.or_true]
  completes := fun c c' d hrun => by
    rw [Collector.add, Collector.run_bind] at hrun
    cases hname : c.source? name with
    | some existing =>
        rw [hname] at hrun
        dsimp only at hrun
        split_ifs at hrun with hsame
        · cases hrun
          exact ⟨.refl c, fun hfinal => ⟨rfl, existing, hfinal _ _ hname, .inr hsame⟩⟩
        · cases hrun
    | none =>
        rw [hname] at hrun
        dsimp only at hrun
        rcases hdoc : (s.inlineDoc true).run { c with sources := c.sources ++ [(name, s)] } with
          ⟨fault | doc, c₁⟩
        · rw [hdoc] at hrun
          cases hrun
        · rw [hdoc] at hrun
          cases hrun
          have hopened : Collector.source? { c with sources := c.sources ++ [(name, s)] } name = some s := by
            rw [Collector.source?] at hname
            rw [Collector.source?, lookup_concat, if_pos rfl, hname, Option.none_or]
          have hbound : c₁.source? name = some s := ((h source?).grows_of_run hdoc).source? hopened
          refine ⟨⟨fun n hn => ?_, fun hsound => ?_⟩, fun hfinal => ⟨rfl, s, hfinal _ _ hbound, .inl rfl⟩⟩
          · rcases ((h source?).completes hdoc).1.documented n hn with hn | hn
            · rw [Collector.source?, lookup_concat, Option.isSome_or, Bool.or_eq_true] at hn
              refine hn.imp id fun hn => ?_
              split_ifs at hn with heq
              · rw [Collector.document?, lookup_concat, if_pos heq, Option.isSome_or, Option.isSome_some,
                  Bool.or_true]
              · cases hn
            · right
              rw [Collector.document?] at hn
              rw [Collector.document?, lookup_concat, Option.isSome_or, hn, Bool.true_or]
          · obtain ⟨hinner, hparts⟩ := (h c₁.source?).completes hdoc
            exact (hinner.sound (hsound.bind name s)).finish hbound ⟨_, _, hdoc⟩ (hparts fun _ _ => id)

/-- What documenting a schema collects, if documenting it in place collects its parts. -/
theorem collects_shareOr {s : Schema} (hallowed : ∀ name, s.sharedName? = some name → Allowed name s)
    (h : ∀ source?, Collects Allowed source? (s.inlineDoc true) fun _ => PartsBound source? s) :
    Collects Allowed source? (s.document true) fun d => s.ShownAs d ∧ Bound source? s := by
  refine Collects.and_of_run (fun _ _ _ hrun => Schema.shownAs_of_document hrun) ?_
  cases hname : s.sharedName? with
  | some name =>
      rw [Schema.document_of_shared hname]
      refine (collects_add (hallowed name hname) h).imp ?_
      rintro d ⟨-, hbound⟩
      exact .of_shared hname hbound
  | none =>
      rw [Schema.document_of_own hname]
      exact (h source?).imp fun d hparts => .of_own hname hparts

/-- Documenting a node binds the names of its shared parts, as far as it comes to them. -/
theorem collects_inlineDoc {s : Schema}
    (hallowed : ∀ t ∈ s.nodes, ∀ name, t.sharedName? = some name → Allowed name t) :
    Collects Allowed source? (s.inlineDoc true) fun _ => PartsBound source? s := by
  induction s using Schema.childInduction generalizing source? with
  | node s ih =>
      have hchild : ∀ t ∈ s.children, Collects Allowed source? (t.document true) fun _ => Bound source? t := by
        intro t ht
        have hnodes := Schema.nodes_child_subset ht
        refine (collects_shareOr (hallowed t (hnodes t.mem_nodes_self)) fun source? => ?_).imp fun _ h => h.2
        exact ih t ht fun t' ht' => hallowed t' (hnodes ht')
      rw [Schema.inlineDoc_eq]
      refine (Collects.mapM hchild).bind fun docs => .lift fun d _ hdocs => .of_children fun t ht => ?_
      obtain ⟨doc, -, hbound⟩ := exists_right_of_forall₂ hdocs ht
      exact hbound

/-- What documenting a schema collects, be it under its name or in place. -/
theorem collects_document {s : Schema}
    (hallowed : ∀ t ∈ s.nodes, ∀ name, t.sharedName? = some name → Allowed name t) :
    Collects Allowed source? (s.document true) fun d => s.ShownAs d ∧ Bound source? s :=
  collects_shareOr (hallowed s s.mem_nodes_self) fun _ => collects_inlineDoc hallowed

end ApiContract
