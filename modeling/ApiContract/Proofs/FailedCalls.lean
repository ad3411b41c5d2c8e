import ApiContract.Proofs.MemberOrder
import ApiContract.Proofs.References

/-!
# Calls that fail

A call that fails is not undone: the names that it has bound stay bound (`Collector.leftBehind`), those that
it was documenting without a document. Nothing else of it stays. A build that has to do with none of some
names runs without them as it does with them (`Overlooks`), so calls that name nothing that a failed call has
left behind are answered as if it had never been made (`serve_after_failure`). One that does may be answered
with a reference to nothing (`reference_to_nothing`).
-/

namespace ApiContract

/-! ### Sorted names -/

theorem pairwise_sortTexts (texts : List String) :
    (Schema.sortTexts texts).Pairwise fun a b => Value.codes a ≤ Value.codes b := by
  refine (List.pairwise_mergeSort (fun a b c hab hbc => ?_) (fun a b => ?_) texts).imp
    Value.compareText_ne_gt_iff.mp
  · rw [Value.compareText_ne_gt_iff] at hab hbc ⊢
    exact le_trans hab hbc
  · rw [Bool.or_eq_true, Value.compareText_ne_gt_iff, Value.compareText_ne_gt_iff]
    exact le_total _ _

/-- Texts have one order. -/
theorem eq_sortTexts {texts sorted : List String} (hperm : sorted.Perm texts)
    (hsorted : sorted.Pairwise fun a b => Value.codes a ≤ Value.codes b) : sorted = Schema.sortTexts texts := by
  refine (hperm.trans (List.mergeSort_perm _ _).symm).eq_of_pairwise ?_ hsorted (pairwise_sortTexts _)
  exact fun a b _ _ hab hba => Value.codes_injective (le_antisymm hab hba)

/-- Texts can be left out before they are sorted or afterwards. -/
theorem sortTexts_filter (texts : List String) (p : String → Bool) :
    Schema.sortTexts (texts.filter p) = (Schema.sortTexts texts).filter p :=
  (eq_sortTexts ((List.mergeSort_perm _ _).filter p) ((pairwise_sortTexts _).filter p)).symm

/-! ### Builds that overlook names -/

namespace Collector

/-- A collector without some of its names. -/
def without (hidden : String → Bool) (c : Collector) : Collector where
  sources := c.sources.filter fun b => !hidden b.1
  documents := c.documents.filter fun f => !hidden f.1

variable {hidden : String → Bool} {c c' : Collector} {name : String}

theorem source?_without (hname : hidden name = false) : (c.without hidden).source? name = c.source? name := by
  have hlookup := lookup_filter_key c.sources (fun n => !hidden n) name
  rwa [hname, if_pos (Bool.not_false)] at hlookup

theorem schemas_without (hidden : String → Bool) (c : Collector) :
    (c.without hidden).schemas = c.schemas.filter fun e => !hidden e.1 := by
  have hnames : (c.without hidden).documents.map (·.1) =
      (c.documents.map (·.1)).filter fun name => !hidden name := by
    rw [List.filter_map]
    rfl
  rw [schemas, schemas, hnames, sortTexts_filter, List.filterMap_filter, List.filter_filterMap]
  refine List.filterMap_congr fun name _ => ?_
  have hlookup : (c.without hidden).documents.lookup name =
      if !hidden name then c.documents.lookup name else none := lookup_filter_key _ (fun n => !hidden n) name
  rw [hlookup]
  cases c.documents.lookup name with
  | none => simp
  | some d =>
      rw [Option.map_some, Option.filter_some]
      split_ifs with hname
      · rfl
      · rfl

/-- A build has to do with none of some names: it runs without them as it does with them. -/
def Overlooks {α : Type} (hidden : String → Bool) (b : Build α) : Prop :=
  ∀ c : Collector, b.run (c.without hidden) = ((b.run c).1, (b.run c).2.without hidden)

namespace Overlooks

variable {α β : Type}

theorem lift (x : Except Fault α) : Overlooks hidden (x : Build α) := by
  intro c
  rw [build_lift, build_lift]

theorem bind {b : Build α} {f : α → Build β} (hb : Overlooks hidden b) (hf : ∀ a, Overlooks hidden (f a)) :
    Overlooks hidden (b >>= f) := by
  intro c
  rw [build_bind, build_bind, hb c]
  rcases b.run c with ⟨fault | a, c₁⟩
  · rfl
  · exact hf a c₁

theorem mapM {f : α → Build β} {xs : List α} (h : ∀ x ∈ xs, Overlooks hidden (f x)) :
    Overlooks hidden (xs.mapM f) := by
  induction xs with
  | nil => exact lift (.ok [])
  | cons x xs ih =>
      rw [List.mapM_cons]
      refine (h x List.mem_cons_self).bind fun y => ?_
      exact (ih fun x hx => h x (List.mem_cons_of_mem _ hx)).bind fun ys => lift (.ok (y :: ys))

end Overlooks

theorem overlooks_add {s : Schema} (hname : hidden name = false) (h : Overlooks hidden (s.inlineDoc true)) :
    Overlooks hidden (Collector.add name s) := by
  intro c
  have hopen : { c.without hidden with sources := (c.without hidden).sources ++ [(name, s)] } =
      without hidden { c with sources := c.sources ++ [(name, s)] } := by
    simp [without, List.filter_append, hname]
  rw [Collector.add, run_bind, run_bind, source?_without hname]
  cases c.source? name with
  | some existing => rfl
  | none =>
      dsimp only
      rw [hopen, h]
      rcases (s.inlineDoc true).run { c with sources := c.sources ++ [(name, s)] } with ⟨fault | d, c₁⟩
      · rfl
      · simp [without, List.filter_append, hname]

theorem overlooks_document {s : Schema} (hname : ∀ name, s.sharedName? = some name → hidden name = false)
    (h : Overlooks hidden (s.inlineDoc true)) : Overlooks hidden (s.document true) := by
  cases hshared : s.sharedName? with
  | some name =>
      rw [Schema.document_of_shared hshared]
      exact overlooks_add (hname name hshared) h
  | none =>
      rw [Schema.document_of_own hshared]
      exact h

/-- Documenting a schema has to do with the names of its nodes only. -/
theorem overlooks_inlineDoc {s : Schema}
    (h : ∀ t ∈ s.nodes, ∀ name, t.sharedName? = some name → hidden name = false) :
    Overlooks hidden (s.inlineDoc true) := by
  induction s using Schema.childInduction with
  | node s ih =>
      rw [Schema.inlineDoc_eq]
      refine (Overlooks.mapM fun t ht => ?_).bind fun docs => .lift _
      have hnodes := Schema.nodes_child_subset ht
      exact overlooks_document (h t (hnodes t.mem_nodes_self)) (ih t ht fun x hx => h x (hnodes hx))

/-- A call has to do with the names that it names only. -/
theorem overlooks_call {call : Call} (h : ∀ name t, call.Names name t → hidden name = false) :
    Overlooks hidden call.build := by
  have hnodes : ∀ t ∈ call.schema.nodes, ∀ name, t.sharedName? = some name → hidden name = false :=
    fun t ht name hname => h name t (.inr ⟨ht, hname⟩)
  cases call with
  | convert s => exact overlooks_document (hnodes s s.mem_nodes_self) (overlooks_inlineDoc hnodes)
  | add name s => exact overlooks_add (h name s (.inl rfl)) (overlooks_inlineDoc hnodes)

/-! ### Calls in a row -/

/-- Calls that name none of some names are answered without them as they are with them. -/
theorem serve_without {calls : List Call}
    (h : ∀ call ∈ calls, ∀ name t, call.Names name t → hidden name = false) (c : Collector) :
    (c.without hidden).serve calls = ((c.serve calls).1, (c.serve calls).2.without hidden) := by
  induction calls generalizing c with
  | nil => rfl
  | cons call calls ih =>
      have hcall := overlooks_call (h call List.mem_cons_self)
      rw [serve, serve, hcall c]
      dsimp only
      rw [ih fun l hl => h l (List.mem_cons_of_mem _ hl)]

/-- A document stays under its name. -/
theorem document?_serve {calls : List Call} {d : Doc} (hd : c.document? name = some d) :
    (c.serve calls).2.document? name = some d := by
  have hgrows : c.Grows (fun _ _ => True) (c.serve calls).2 := grows_serve (fun _ _ _ _ _ => trivial) c
  exact hgrows.document? hd

/-- A name that is bound has a document. -/
def Finished (c : Collector) (name : String) : Prop :=
  (c.source? name).isSome = true → (c.document? name).isSome = true

/-- A call that succeeds, or does not name a name, leaves nothing under way there. -/
theorem Finished.run (h : c.Finished name) {call : Call} {answer : Except Fault Doc}
    (hrun : call.build.run c = (answer, c'))
    (hanswer : ∀ f, answer = .error f → ∀ t, ¬ call.Names name t) : c'.Finished name := by
  intro hbound
  have hcollects : Collects call.Names c.source? call.build fun _ => call.Answered c.source? :=
    collects_call_names call
  have hgrows := hcollects.grows_of_run hrun
  have hstays : (c.source? name).isSome = true → (c'.document? name).isSome = true := by
    intro hold
    obtain ⟨d, hd⟩ := Option.isSome_iff_exists.mp (h hold)
    exact Option.isSome_iff_exists.mpr ⟨d, hgrows.document? hd⟩
  cases answer with
  | ok d => exact ((hcollects.completes hrun).1.documented name hbound).elim hstays id
  | error f =>
      obtain ⟨s, hs⟩ := Option.isSome_iff_exists.mp hbound
      rcases hgrows.allowed hs with hold | hnames
      · exact hstays (Option.isSome_iff_exists.mpr ⟨s, hold⟩)
      · exact absurd hnames (hanswer f rfl s)

/-- What a call that succeeds answers refers to names that are bound. -/
theorem resolves_of_run {call : Call} {d : Doc} (hrun : call.build.run c = (.ok d, c')) :
    d.Resolves (Schema.Taken c'.source?) := by
  have hanswered := answered_of_run hrun
  cases call with
  | convert s => exact (Schema.shownAs_of_document hrun).resolves hanswered
  | add name s =>
      rw [eq_referTo_of_add hrun]
      exact Doc.resolves_referTo.mpr hanswered.taken

/-- A name to which an answer refers has a document in the end, unless a call that failed has named it. -/
theorem document?_of_serve {calls : List Call} {call : Call} {d : Doc}
    (hanswer : (call, .ok d) ∈ (c.serve calls).1) (hname : name ∈ d.references) (hfinished : c.Finished name)
    (hfailed : ∀ l f, (l, .error f) ∈ (c.serve calls).1 → ∀ t, ¬ l.Names name t) :
    ((c.serve calls).2.document? name).isSome = true := by
  induction calls generalizing c with
  | nil => cases hanswer
  | cons first calls ih =>
      rcases hrun : first.build.run c with ⟨answer, c₁⟩
      rw [serve, hrun] at hanswer hfailed ⊢
      dsimp only at hanswer hfailed ⊢
      have hfinished' : c₁.Finished name :=
        hfinished.run hrun fun f hf => hfailed first f (hf ▸ List.mem_cons_self)
      rcases List.mem_cons.mp hanswer with heq | hanswer
      · cases heq
        obtain ⟨e, he⟩ := Option.isSome_iff_exists.mp (hfinished' (resolves_of_run hrun name hname))
        exact Option.isSome_iff_exists.mpr ⟨e, document?_serve he⟩
      · exact ih hanswer hfinished' fun l f hl => hfailed l f (List.mem_cons_of_mem _ hl)

/-! ### What a call that fails leaves behind -/

/-- The names that are bound in a later collector and were not in an earlier one. -/
def leftBehind (c c' : Collector) (name : String) : Bool :=
  (c.source? name).isNone && (c'.source? name).isSome

theorem leftBehind_eq_true_iff :
    c.leftBehind c' name = true ↔ c.source? name = none ∧ ∃ s, c'.source? name = some s := by
  rw [leftBehind, Bool.and_eq_true, Option.isNone_iff_eq_none, Option.isSome_iff_exists]

/-- A collector that goes on from another one is that one, but for what has been bound since. -/
theorem Grows.without_leftBehind {Allowed : String → Schema → Prop} (h : c.Grows Allowed c') :
    c'.without (c.leftBehind c') = c.without (c.leftBehind c') := by
  obtain ⟨bound, hbound, hnew⟩ := h.sources
  obtain ⟨finished, hfinished, hdone⟩ := h.documents
  have hsources : bound.filter (fun b => !c.leftBehind c' b.1) = [] := by
    refine List.filter_eq_nil_iff.mpr fun b hb => ?_
    have hlookup : (c'.source? b.1).isSome = true := by
      rw [Collector.source?, hbound, List.lookup_append, Option.isSome_or, Bool.or_eq_true]
      refine .inr (Option.isSome_iff_ne_none.mpr fun hnone => ?_)
      exact bne_iff_ne.mp (List.lookup_eq_none_iff.mp hnone b hb) rfl
    rw [leftBehind, (hnew b hb).1, hlookup]
    exact Bool.false_ne_true
  have hdocuments : finished.filter (fun f => !c.leftBehind c' f.1) = [] := by
    refine List.filter_eq_nil_iff.mpr fun f hf => ?_
    rw [leftBehind, (hdone f hf).1, (hdone f hf).2]
    exact Bool.false_ne_true
  rw [without, without, hbound, hfinished, List.filter_append, List.filter_append, hsources, hdocuments,
    List.append_nil, List.append_nil]

theorem without_of_none (h : ∀ name, hidden name = false) : c.without hidden = c := by
  simp [without, h]

theorem finished_of_not_leftBehind {Allowed : String → Schema → Prop} (h : c.Grows Allowed c')
    (hname : c.leftBehind c' name = false) (hfinished : c.Finished name) : c'.Finished name := by
  intro hbound
  rw [leftBehind, hbound, Bool.and_true, Option.isNone_eq_false_iff] at hname
  obtain ⟨d, hd⟩ := Option.isSome_iff_exists.mp (hfinished hname)
  exact Option.isSome_iff_exists.mpr ⟨d, h.document? hd⟩

/-- **A call that fails is seen in the names that it leaves behind only.** Each of them it has named, and if
there are none, the collector is what it was. Later calls that name none of them are answered as if it had not
been made, and lead to the same schemas, apart from those under these names. And what a later answer refers to
has a schema, if the name is not one of them, stood there before only with a document, and was named by no later
call that failed. -/
theorem serve_after_failure {call : Call} {f : Fault} (h : call.build.run c = (.error f, c')) :
    (∀ name, c.leftBehind c' name = true → ∃ s, call.Names name s) ∧
      ((∀ name, c.leftBehind c' name = false) → c' = c) ∧
      ∀ later : List Call, (∀ l ∈ later, ∀ name s, l.Names name s → c.leftBehind c' name = false) →
        (c'.serve later).1 = (c.serve later).1 ∧
          ((c'.serve later).2.schemas.filter fun e => !c.leftBehind c' e.1) =
            ((c.serve later).2.schemas.filter fun e => !c.leftBehind c' e.1) ∧
          ∀ l d, (l, .ok d) ∈ (c'.serve later).1 → ∀ name ∈ d.references, c.leftBehind c' name = false →
            c.Finished name → (∀ l' f', (l', .error f') ∈ (c'.serve later).1 → ∀ t, ¬ l'.Names name t) →
            name ∈ (c'.serve later).2.schemas.map (·.1) := by
  have hcollects : Collects call.Names c.source? call.build fun _ => call.Answered c.source? :=
    collects_call_names call
  have hgrows := hcollects.grows_of_run h
  refine ⟨fun name hname => ?_, fun hnone => ?_, fun later hlater => ?_⟩
  · obtain ⟨hfree, s, hs⟩ := leftBehind_eq_true_iff.mp hname
    rcases hgrows.allowed hs with hold | hnames
    · rw [hfree] at hold
      cases hold
    · exact ⟨s, hnames⟩
  · rw [← without_of_none (c := c') hnone, hgrows.without_leftBehind, without_of_none hnone]
  · have hserve : ((c'.serve later).1, (c'.serve later).2.without (c.leftBehind c')) =
        ((c.serve later).1, (c.serve later).2.without (c.leftBehind c')) := by
      rw [← serve_without hlater, ← serve_without hlater, hgrows.without_leftBehind]
    obtain ⟨hanswers, hcollector⟩ := Prod.mk.inj hserve
    refine ⟨hanswers, ?_, fun l d hl name hname hfresh hfinished hfailed => ?_⟩
    · rw [← schemas_without, ← schemas_without, hcollector]
    · have hfinished' := finished_of_not_leftBehind hgrows hfresh hfinished
      have hdocument := document?_of_serve hl hname hfinished' hfailed
      obtain ⟨e, he⟩ := Option.isSome_iff_exists.mp hdocument
      rw [← lookup_schemas] at he
      obtain ⟨before, after, hsplit, -⟩ := List.lookup_eq_some_iff.mp he
      rw [hsplit, List.map_append]
      exact List.mem_append_right _ List.mem_cons_self

/-- A text that is no JSON is given if there is none. -/
def sealedToken : Schema := .string { default := some (.bytes [0]) } {}

/-- A token that cannot be documented is added, and then something else: that is answered and documented as
if there had been no token. -/
theorem serve_after_failure_sealed :
    ∃ c' : Collector, (add "Token" sealedToken).run {} =
        (.error (.documentation (.notSerializable "Default value" "b'\\x00'")), c') ∧
      (c'.serve [.add "Key" (.string {} {})]).1 = [(.add "Key" (.string {} {}), .ok (.referTo "Key"))] ∧
      "Key" ∈ (c'.serve [.add "Key" (.string {} {})]).2.schemas.map (·.1) := by
  have hfail : (Call.add "Token" sealedToken).build.run {} =
      (.error (.documentation (.notSerializable "Default value" "b'\\x00'")),
        { sources := [("Token", sealedToken)] }) := by
    with_unfolding_all rfl
  have hleft : ∀ name, leftBehind {} { sources := [("Token", sealedToken)] } name = (name == "Token") := by
    intro name
    rw [leftBehind, source?, source?, List.lookup_cons]
    cases name == "Token" with
    | true => rfl
    | false => rfl
  have hnames : ∀ name s, (Call.add "Key" (.string {} {})).Names name s →
      leftBehind {} { sources := [("Token", sealedToken)] } name = false := by
    rintro name s (hadd | ⟨hs, hname⟩)
    · cases hadd
      exact hleft "Key"
    · obtain rfl := List.mem_singleton.mp hs
      cases hname
  obtain ⟨-, -, hlater⟩ := serve_after_failure hfail
  obtain ⟨hanswers, -, hschemas⟩ := hlater [.add "Key" (.string {} {})] (List.forall_mem_singleton.mpr hnames)
  refine ⟨_, hfail, hanswers, ?_⟩
  rw [hanswers] at hschemas
  refine hschemas _ _ List.mem_cons_self "Key" List.mem_cons_self (hleft "Key") ?_ ?_
  · intro hbound
    cases hbound
  · intro l f hl
    cases List.mem_singleton.mp hl

/-- **A name that a call has left behind is referred to, and nothing stands there.** The very call that has
failed is answered when it is made again. -/
theorem reference_to_nothing :
    (serve {} [.add "Token" sealedToken, .add "Token" sealedToken]).1 =
        [(.add "Token" sealedToken,
            .error (.documentation (.notSerializable "Default value" "b'\\x00'"))),
          (.add "Token" sealedToken, .ok (.referTo "Token"))] ∧
      (serve {} [.add "Token" sealedToken, .add "Token" sealedToken]).2.schemas = [] ∧
      (serve {} [.add "Token" sealedToken]).1 =
        [(.add "Token" sealedToken,
          .error (.documentation (.notSerializable "Default value" "b'\\x00'")))] := by
  refine ⟨?_, ?_, ?_⟩
  · with_unfolding_all rfl
  · with_unfolding_all rfl
  · with_unfolding_all rfl

end Collector

end ApiContract
