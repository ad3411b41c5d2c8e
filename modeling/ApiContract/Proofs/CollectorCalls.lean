import ApiContract.Proofs.Collection

/-!
# Calls of a collector

A collector is settled if what stands under names is sound and every name that is bound is documented; builds
that succeed keep it so (`Settled.run`). A collector answers two calls: to document a schema, and to add one
under a name. What calls that succeed lead to is settled (`Reached.settled`), and its schemas list a document
for each bound name.
-/

namespace ApiContract

theorem lookup_filterMap_pair {α β : Type} [BEq α] [LawfulBEq α] [DecidableEq α] (keys : List α)
    (f : α → Option β) (key : α) :
    (keys.filterMap fun k => (f k).map (k, ·)).lookup key = if key ∈ keys then f key else none := by
  induction keys with
  | nil => rfl
  | cons k keys ih =>
      rw [List.filterMap_cons]
      cases hf : f k with
      | none =>
          rw [Option.map_none]
          dsimp only
          rw [ih]
          by_cases hkey : key = k
          · subst hkey
            simp [hf]
          · simp [hkey]
      | some b =>
          rw [Option.map_some]
          dsimp only
          rw [List.lookup_cons, ih]
          by_cases hkey : key = k
          · subst hkey
            simp [hf]
          · simp [hkey, beq_false_of_ne hkey]

namespace Collector

theorem mem_sortTexts {texts : List String} {text : String} :
    text ∈ Schema.sortTexts texts ↔ text ∈ texts :=
  List.mem_mergeSort

/-- The schemas of a collector list what stands under its names. -/
theorem lookup_schemas (c : Collector) (name : String) : c.schemas.lookup name = c.document? name := by
  rw [schemas, lookup_filterMap_pair]
  split_ifs with hname
  · rfl
  · symm
    rw [document?, List.lookup_eq_none_iff]
    intro e he
    rw [bne_iff_ne]
    rintro rfl
    exact hname (mem_sortTexts.mpr (List.mem_map_of_mem he))

/-- What the schemas of a collector list stands under the name. -/
theorem document?_of_mem_schemas {c : Collector} {name : String} {d : Doc} (h : (name, d) ∈ c.schemas) :
    c.document? name = some d := by
  obtain ⟨n, -, hd⟩ := List.mem_filterMap.mp h
  obtain ⟨d', hd', heq⟩ := Option.map_eq_some_iff.mp hd
  cases heq
  exact hd'

/-! ### Settled collectors -/

variable {Allowed : String → Schema → Prop} {c c' : Collector} {name : String}

/-- What is bound was bound before, or was allowed to be. -/
theorem Grows.allowed (h : c.Grows Allowed c') {s : Schema} (hs : c'.source? name = some s) :
    c.source? name = some s ∨ Allowed name s := by
  obtain ⟨bound, hbound, hnew⟩ := h.sources
  rw [Collector.source?, hbound, List.lookup_append, Option.or_eq_some_iff] at hs
  refine hs.imp id ?_
  rintro ⟨-, hs⟩
  exact (hnew _ (mem_of_lookup hs)).2

/-- A collector in which nothing is under way: what is bound was allowed to be and is documented soundly. -/
structure Settled (Allowed : String → Schema → Prop) (c : Collector) : Prop where
  allowed : ∀ name s, c.source? name = some s → Allowed name s
  documented : ∀ name, (c.source? name).isSome = true → (c.document? name).isSome = true
  sound : c.Sound

theorem Settled.empty : Settled Allowed {} where
  allowed := fun _ _ hs => by cases hs
  documented := fun _ hs => by cases hs
  sound := fun _ _ hd => by cases hd

/-- Builds that succeed leave nothing under way. -/
theorem Settled.run (h : c.Settled Allowed) {α : Type} {source? : String → Option Schema} {b : Build α}
    {Q : α → Prop} (hb : Collects Allowed source? b Q) {a : α} (hrun : b.run c = (.ok a, c')) :
    c'.Settled Allowed where
  allowed := fun _ _ hs => ((hb.grows_of_run hrun).allowed hs).elim (h.allowed _ _) id
  documented := fun name hname => by
    rcases (hb.completes hrun).1.documented name hname with hold | hnew
    · obtain ⟨d, hd⟩ := Option.isSome_iff_exists.mp (h.documented name hold)
      exact Option.isSome_iff_exists.mpr ⟨d, (hb.grows_of_run hrun).document? hd⟩
    · exact hnew
  sound := (hb.completes hrun).1.sound h.sound

/-- A schema that is bound has a document. -/
theorem Settled.exists_document (h : c.Settled Allowed) {s : Schema} (hs : c.source? name = some s) :
    ∃ d, c.document? name = some d ∧ s.Yields d ∧ s.PartsBound c.source? := by
  obtain ⟨d, hd⟩ := Option.isSome_iff_exists.mp (h.documented name (Option.isSome_iff_exists.mpr ⟨s, hs⟩))
  obtain ⟨s', hs', hyields, hparts⟩ := h.sound name d hd
  obtain rfl := Option.some.inj (hs'.symm.trans hs)
  exact ⟨d, hd, hyields, hparts⟩

/-! ### Calls -/

/-- A call that a collector answers with a document. -/
inductive Call where
  | convert (s : Schema)
  | add (name : String) (s : Schema)

namespace Call

/-- The schema that is to be documented. -/
def schema : Call → Schema
  | convert s | add _ s => s

def build : Call → Build Doc
  | convert s => s.document true
  | add name s => Collector.add name s

/-- A call names a schema: it adds the schema under the name, or the schema is a node of this name. -/
def Names (call : Call) (name : String) (t : Schema) : Prop :=
  call = .add name t ∨ (t ∈ call.schema.nodes ∧ t.sharedName? = some name)

/-- A call is answered: its schema has a name that is bound, or the names of its shared parts are. -/
def Answered (source? : String → Option Schema) : Call → Prop
  | convert s => s.Bound source?
  | add name s => s.BoundTo source? name

end Call

variable {source? : String → Option Schema}

theorem collects_call {call : Call}
    (hallowed : ∀ name t, call.Names name t → Allowed name t) :
    Collects Allowed source? call.build fun _ => call.Answered source? := by
  have hnodes : ∀ t ∈ call.schema.nodes, ∀ name, t.sharedName? = some name → Allowed name t :=
    fun t ht name hname => hallowed name t (.inr ⟨ht, hname⟩)
  cases call with
  | convert s => exact (collects_document hnodes).imp fun _ h => h.2
  | add name s =>
      exact (collects_add (hallowed name s (.inl rfl)) fun _ => collects_inlineDoc hnodes).imp fun _ h => h.2

/-- What a call binds it names. -/
theorem collects_call_names (call : Call) :
    Collects call.Names source? call.build fun _ => call.Answered source? :=
  collects_call fun _ _ => id

/-- Calls in a row with their answers, and the collector that the last one leaves. A call that fails leaves a
collector to the next one as well. -/
def serve (c : Collector) : List Call → List (Call × Except Fault Doc) × Collector
  | [] => ([], c)
  | call :: calls =>
    let next := (call.build.run c).2.serve calls
    ((call, (call.build.run c).1) :: next.1, next.2)

/-- Calls only add to a collector, whether they succeed or not. -/
theorem grows_serve {calls : List Call}
    (hallowed : ∀ call ∈ calls, ∀ name t, call.Names name t → Allowed name t) (c : Collector) :
    c.Grows Allowed (c.serve calls).2 := by
  induction calls generalizing c with
  | nil => exact .refl c
  | cons call calls ih =>
      have hcollects : Collects Allowed c.source? call.build fun _ => call.Answered c.source? :=
        collects_call (hallowed call List.mem_cons_self)
      exact (hcollects.grows c).trans (ih (fun l hl => hallowed l (List.mem_cons_of_mem _ hl)) _)

/-- The collectors that calls on schemas of a kind lead to, if all of them succeed. -/
inductive Reached (P : Schema → Prop) : Collector → Prop
  | empty : Reached P {}
  | call {c c' : Collector} {call : Call} {d : Doc} (h : Reached P c) (hschema : P call.schema)
      (hrun : call.build.run c = (.ok d, c')) : Reached P c'

/-- What is bound in a collector that is reached was named in a call, and it is documented soundly. -/
theorem Reached.settled {P : Schema → Prop} (h : c.Reached P) :
    c.Settled fun name s => ∃ call : Call, P call.schema ∧ call.Names name s := by
  induction h with
  | empty => exact .empty
  | @call c c' call d _ hschema hrun ih =>
      have hcollects : Collects (fun name s => ∃ call : Call, P call.schema ∧ call.Names name s) c'.source?
          call.build fun _ => call.Answered c'.source? :=
        collects_call fun _ _ hnames => ⟨call, hschema, hnames⟩
      exact ih.run hcollects hrun

/-- A call that succeeds is answered. -/
theorem answered_of_run {call : Call} {d : Doc} (hrun : call.build.run c = (.ok d, c')) :
    call.Answered c'.source? :=
  ((collects_call_names call).completes hrun).2 fun _ _ => id

end Collector

end ApiContract
