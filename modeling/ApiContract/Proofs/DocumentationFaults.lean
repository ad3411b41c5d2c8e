import ApiContract.Proofs.DocumentableRegistries

/-!
# Why a document cannot be built

A build ends with a result or with a fault. `FailsWith` says which faults are possible, and is composed step by step
like the builds themselves. The documentation of a schema or a route gives a defect for its reason, unless a number
beyond the limit has to be shown: as the status of a response or a refusal, or in the words for a default or for examples that cannot
be written (`failsWith_responses`, `failsWith_operation`).
-/

namespace ApiContract

variable {α β : Type} {Possible : Fault → Prop}

/-- A build ends in possible faults only, whatever has been collected. -/
def FailsWith (Possible : Fault → Prop) (b : Build α) : Prop :=
  ∀ ⦃c c' : Collector⦄ ⦃f : Fault⦄, b.run c = (.error f, c') → Possible f

namespace FailsWith

theorem lift {x : Except Fault α} (h : ∀ f, x = .error f → Possible f) : FailsWith Possible (x : Build α) := by
  intro c c' f hrun
  rw [build_lift] at hrun
  exact h f (Prod.mk.inj hrun).1

theorem pure (a : α) : FailsWith Possible (pure a : Build α) :=
  lift fun _ h => by cases h

theorem throw {f : Fault} (h : Possible f) : FailsWith Possible (throw f : Build α) :=
  lift (x := .error f) fun _ heq => Except.error.inj heq ▸ h

theorem bind {b : Build α} {f : α → Build β} (hb : FailsWith Possible b) (hf : ∀ a, FailsWith Possible (f a)) :
    FailsWith Possible (b >>= f) := by
  intro c c' fault hrun
  rw [build_bind] at hrun
  rcases hstep : b.run c with ⟨f' | a, c₁⟩
  · rw [hstep] at hrun
    obtain rfl := Except.error.inj (Prod.mk.inj hrun).1
    exact hb hstep
  · rw [hstep] at hrun
    exact hf a hrun

theorem mapM {f : α → Build β} {xs : List α} (h : ∀ x ∈ xs, FailsWith Possible (f x)) :
    FailsWith Possible (xs.mapM f) := by
  induction xs with
  | nil => exact .pure []
  | cons x xs ih =>
      rw [List.mapM_cons]
      refine (h x List.mem_cons_self).bind fun y => ?_
      exact (ih fun x hx => h x (List.mem_cons_of_mem _ hx)).bind fun ys => .pure _

theorem foldlM {f : β → α → Build β} {xs : List α} (h : ∀ y, ∀ x ∈ xs, FailsWith Possible (f y x)) (y : β) :
    FailsWith Possible (xs.foldlM f y) := by
  induction xs generalizing y with
  | nil => exact .pure y
  | cons x xs ih =>
      rw [List.foldlM_cons]
      exact (h y x List.mem_cons_self).bind fun y' => ih (fun y x hx => h y x (List.mem_cons_of_mem _ hx)) y'

/-- A name may be taken; otherwise its schema is documented. -/
theorem bindName {name : String} {s : Schema} {document : Build Doc}
    (htaken : Possible (.documentation (.nameTakenTwice name))) (h : FailsWith Possible document) :
    FailsWith Possible (Collector.bind name s document) := by
  intro c c' f hrun
  rw [Collector.run_bind] at hrun
  cases hname : c.source? name with
  | some existing =>
      rw [hname] at hrun
      dsimp only at hrun
      split_ifs at hrun
      · cases hrun
      · obtain rfl := Except.error.inj (Prod.mk.inj hrun).1
        exact htaken
  | none =>
      rw [hname] at hrun
      rcases hdocument : document.run { c with sources := c.sources ++ [(name, s)] } with ⟨f' | doc, c₁⟩
      · simp only [hdocument] at hrun
        obtain rfl := Except.error.inj (Prod.mk.inj hrun).1
        exact h hdocument
      · simp only [hdocument] at hrun
        cases hrun

end FailsWith

/-- The defects of a documentation are possible, but for those that a kind of node or a target excludes. -/
structure AdmitsDefects (Possible : Fault → Prop) : Prop where
  noMapping : ∀ typeName, Possible (.documentation (.noMapping typeName))
  nameTakenTwice : ∀ name, Possible (.documentation (.nameTakenTwice name))
  notSerializable : ∀ what given, Possible (.documentation (.notSerializable what given))
  unsupportedResponse : ∀ typeName, Possible (.documentation (.unsupportedResponse typeName))

/-- A value can be written as JSON, or else shown in the words that say that it cannot. -/
def Value.Told (v : Value) : Prop := Json.isSerializable v = true ∨ ∃ text, v.display = .ok text

/-- The default and the examples can be written or shown. -/
structure Annotations.Told (a : Annotations) : Prop where
  default : ∀ v ∈ a.default, v.Told
  examples : ∀ vs ∈ a.examples, (Value.list vs).Told

namespace Schema

/-- The defaults and the examples of all nodes can be written or shown. -/
def Told (s : Schema) : Prop := ∀ t ∈ s.nodes, ∀ a ∈ t.annotations?, a.Told

theorem Told.child {s t : Schema} (h : s.Told) (ht : t ∈ s.children) : t.Told :=
  fun u hu => h u (nodes_child_subset ht hu)

section Faults

variable (hdefects : AdmitsDefects Possible)
include hdefects

theorem possible_of_serializable {v : Value} {what : String} (hv : v.Told ∨ Possible .digitLimit) {f : Fault}
    (h : serializable v what = .error f) : Possible f := by
  unfold serializable at h
  split_ifs at h with hwritten
  · cases h
  cases hshown : v.display with
  | ok text =>
      rw [hshown] at h
      obtain rfl := Except.error.inj h
      exact hdefects.notSerializable what text
  | error f' =>
      rw [hshown] at h
      obtain rfl := Except.error.inj h
      rcases hv with (hv | ⟨text, htext⟩) | hlimit
      · exact absurd hv hwritten
      · rw [hshown] at htext
        cases htext
      · rwa [Value.limited_display v _ hshown]

theorem possible_of_examples {a : Annotations} {doc : Doc} (ha : a.Told ∨ Possible .digitLimit) {f : Fault}
    (h : (match a.examples with
      | some vs => do return doc.set "examples" (← serializable (.list vs) "Examples")
      | none => return doc : Except Fault Doc) = .error f) : Possible f := by
  split at h
  · rename_i vs hvs
    rcases bind_eq_error_iff.mp h with h | ⟨_, -, h⟩
    · exact possible_of_serializable hdefects (ha.imp_left fun h => h.examples vs hvs) h
    · cases h
  · cases h

theorem possible_of_annotate {a : Annotations} {doc : Doc} (ha : a.Told ∨ Possible .digitLimit) {f : Fault}
    (h : annotate a doc = .error f) : Possible f := by
  unfold annotate at h
  dsimp only at h
  split at h
  · rename_i v hv
    rcases bind_eq_error_iff.mp h with h | ⟨_, -, h⟩
    · exact possible_of_serializable hdefects (ha.imp_left fun h => h.default v hv) h
    · exact possible_of_examples hdefects ha h
  · exact possible_of_examples hdefects ha h

theorem possible_of_assemble {s : Schema} {docs : List Doc} (hs : s.Told ∨ Possible .digitLimit) {f : Fault}
    (h : s.assemble docs = .error f) : Possible f := by
  unfold assemble at h
  split at h
  · rename_i a doc ha _
    exact possible_of_annotate hdefects (hs.imp_left fun h => h s s.mem_nodes_self a ha) h
  · obtain rfl := Except.error.inj h
    exact hdefects.noMapping _

theorem failsWith_document_of {s : Schema}
    (h : FailsWith Possible (s.inlineDoc true)) : FailsWith Possible (s.document true) := by
  cases hname : s.sharedName? with
  | some name =>
      rw [document_of_shared hname]
      exact .bindName (hdefects.nameTakenTwice name) h
  | none =>
      rw [document_of_own hname]
      exact h

theorem failsWith_inlineDoc {s : Schema} (hs : s.Told ∨ Possible .digitLimit) :
    FailsWith Possible (s.inlineDoc true) := by
  induction s using childInduction with
  | node s ih =>
      rw [inlineDoc_eq]
      refine (FailsWith.mapM fun t ht => ?_).bind fun docs => .lift fun f => possible_of_assemble hdefects hs
      exact failsWith_document_of hdefects (ih t ht (hs.imp_left fun h => h.child ht))

theorem failsWith_document {s : Schema} (hs : s.Told ∨ Possible .digitLimit) :
    FailsWith Possible (s.document true) :=
  failsWith_document_of hdefects (failsWith_inlineDoc hdefects hs)

end Faults

end Schema

namespace Documentation

open Routing Schema

/-- What the responses of a route show has a text: the statuses that are declared and those with which input is refused,
and the defaults and examples that cannot be written. -/
structure ResponsesTold (settings : Settings) (route : Route) : Prop where
  statuses : ∀ r ∈ declaredBy route, ∃ text, r.1.plain = .ok text
  refusals : ∀ v ∈ route.validators, ∃ text, intText (v.stage.statusFor settings) = .ok text
  schemas : ∀ r ∈ declaredBy route, ∀ s ∈ RouteDescription.responseSchemas r.2, s.Told

section Faults

variable (hdefects : AdmitsDefects Possible) {settings : Settings} {route : Route} {v : RouteValidator}
include hdefects

theorem failsWith_parameter {location : String} {required : List Value} {key : Value} {s : Schema}
    (hs : s.Told ∨ Possible .digitLimit) : FailsWith Possible (parameter location required key s) :=
  (failsWith_document hdefects hs).bind fun _ => .pure _

/-- A validation has parameters where its target asks for an object and has one. -/
theorem failsWith_validatorParameters
    (hobject : ∀ location, location? v.stage.target = some location → v.stage.pipeline.schema.object?.isSome)
    (hs : v.stage.pipeline.schema.Told ∨ Possible .digitLimit) : FailsWith Possible (validatorParameters v) := by
  unfold validatorParameters
  dsimp only
  cases hlocation : location? v.stage.target with
  | none => exact .pure _
  | some location =>
      obtain ⟨⟨f, ps⟩, hfound⟩ := Option.isSome_iff_exists.mp (hobject location hlocation)
      rw [hfound]
      refine .mapM fun p hp => failsWith_parameter hdefects (hs.imp_left fun h t ht => h t ?_)
      obtain ⟨a, hunwrap⟩ := object?_eq_some hfound
      refine nodes_unwrap_subset _ ?_
      rw [hunwrap]
      exact nodes_property_subset hp ht

theorem failsWith_validatorContent (hs : v.stage.pipeline.schema.Told ∨ Possible .digitLimit) :
    FailsWith Possible (validatorContent v) := by
  unfold validatorContent
  cases bodyMediaTypes v.stage.target with
  | nil => exact .pure _
  | cons t types => exact (failsWith_document hdefects hs).bind fun _ => .pure _

theorem failsWith_responseSchema {s : Schema} (hs : s.Told ∨ Possible .digitLimit) :
    FailsWith Possible (responseSchema s) := by
  unfold responseSchema
  split_ifs
  · exact failsWith_document hdefects hs
  · split
    · exact .pure _
    · exact .throw (hdefects.unsupportedResponse _)

theorem failsWith_declaredResponse {r : ResponseDescription}
    (hs : (∀ s ∈ RouteDescription.responseSchemas r, s.Told) ∨ Possible .digitLimit) :
    FailsWith Possible (declaredResponse r) := by
  refine (FailsWith.mapM fun m hm => ?_).bind fun _ => .pure _
  obtain ⟨key, w | types⟩ := m
  · exact .pure _
  · refine (FailsWith.mapM fun t ht => ?_).bind fun _ => .pure _
    refine (FailsWith.mapM fun m' hm' => ?_).bind fun _ => .pure _
    obtain ⟨key', w | s⟩ := m'
    · exact .pure _
    · refine (failsWith_responseSchema hdefects (hs.imp_left fun h => h s ?_)).bind fun _ => .pure _
      exact List.mem_flatMap.mpr ⟨_, hm, List.mem_flatMap.mpr ⟨t, ht, List.mem_filterMap.mpr ⟨_, hm', rfl⟩⟩⟩

theorem failsWith_declaredResponses (h : ResponsesTold settings route ∨ Possible .digitLimit) :
    FailsWith Possible (declaredResponses route) := by
  refine .foldlM (fun responses r hr => ?_) []
  refine (failsWith_declaredResponse hdefects (h.imp_left fun h => h.schemas r hr)).bind fun doc => ?_
  refine (FailsWith.lift fun f hf => ?_).bind fun _ => .pure _
  rcases h with h | hlimit
  · obtain ⟨text, htext⟩ := h.statuses r hr
    rw [htext] at hf
    cases hf
  · rwa [Value.limited_plain r.1 f hf]

omit hdefects in
theorem failsWith_failureStatuses (h : ResponsesTold settings route ∨ Possible .digitLimit) :
    FailsWith Possible (failureStatuses settings route : Build (List String)) := by
  refine .lift fun f hf => ?_
  rcases bind_eq_error_iff.mp hf with hf | ⟨_, -, hf⟩
  · obtain ⟨before, v, after, hvalidators, -, hf⟩ := mapM_eq_error_iff.mp hf
    rcases h with h | hlimit
    · obtain ⟨text, htext⟩ := h.refusals v (hvalidators ▸ List.mem_append_right _ List.mem_cons_self)
      rw [htext] at hf
      cases hf
    · rwa [Value.limited_intText _ f hf]
  · cases hf

theorem failsWith_failureResponse : FailsWith Possible failureResponse := by
  refine (FailsWith.bindName (hdefects.nameTakenTwice _) ?_).bind fun _ => .pure _
  refine failsWith_inlineDoc hdefects (.inl fun t ht a ha => ?_)
  obtain ⟨hdefault, hexamples⟩ := (documentable_validationErrorSchema t ht).2 a ha
  exact ⟨fun v hv => .inl (hdefault v hv), fun vs hvs => .inl (hexamples vs hvs)⟩

theorem failsWith_addFailures (responses : List (String × Doc)) (statuses : List String) :
    FailsWith Possible (addFailures responses statuses) := by
  refine .foldlM (fun responses status _ => ?_) responses
  split
  · exact .pure _
  · exact (failsWith_failureResponse hdefects).bind fun _ => .pure _

theorem failsWith_responses (h : ResponsesTold settings route ∨ Possible .digitLimit) :
    FailsWith Possible (responses settings route) :=
  (failsWith_declaredResponses hdefects h).bind fun _ => (failsWith_failureStatuses h).bind fun _ =>
    (failsWith_addFailures hdefects _ _).bind fun _ => .pure _

theorem failsWith_operation
    (hobject : ∀ v ∈ route.validators, ∀ location, location? v.stage.target = some location →
      v.stage.pipeline.schema.object?.isSome)
    (hstages : (∀ v ∈ route.validators, v.stage.pipeline.schema.Told) ∨ Possible .digitLimit)
    (hresponses : ResponsesTold settings route ∨ Possible .digitLimit) : FailsWith Possible (operation settings route) := by
  have hparameters : FailsWith Possible (parameters route) :=
    (FailsWith.mapM fun v hv => failsWith_validatorParameters hdefects (hobject v hv)
      (hstages.imp_left fun h => h v hv)).bind fun _ => .pure _
  have hbody : FailsWith Possible (requestBody route) := by
    refine (FailsWith.mapM fun v hv => failsWith_validatorContent hdefects
      (hstages.imp_left fun h => h v hv)).bind fun rows => ?_
    dsimp only
    split
    · exact .pure _
    · exact .pure _
  exact hparameters.bind fun ps => hbody.bind fun body =>
    (failsWith_responses hdefects hresponses).bind fun doc => .pure _

end Faults

end Documentation

end ApiContract
