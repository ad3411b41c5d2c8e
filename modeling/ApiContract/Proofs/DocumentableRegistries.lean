import ApiContract.Proofs.DisplayLimit
import ApiContract.Proofs.DocumentedRoutes
import ApiContract.Proofs.FailureResponses
import ApiContract.Proofs.Registration
import ApiContract.Proofs.ResolvedReferences
import ApiContract.Proofs.SharedNames

/-!
# Registries that can be documented

Registration finds out whether schemas are well formed and whether the targets of parameters have object schemas.
What is left for the documentation to find out is whether defaults and examples can be written, whether the schemas
that share a name are equal, and whether the statuses of declared responses have a text. A status code has one. So
registries have documents where defaults and examples can be written and names are shared by equal schemas
(`exists_generate`).
-/

namespace ApiContract

namespace Documentation

open Routing Schema

/-! ### The names that the documentation comes to -/

/-- The names that the parameters of a validation come to. -/
def parameterNames (v : RouteValidator) : List (String × Schema) :=
  match location? v.stage.target with
  | none => []
  | some _ =>
    match v.stage.pipeline.schema.object? with
    | none => []
    | some (_, properties) => properties.flatMap fun p => p.2.namedNodes

/-- The names that the body of a validation comes to. -/
def bodyNames (v : RouteValidator) : List (String × Schema) :=
  match bodyMediaTypes v.stage.target with
  | [] => []
  | _ => v.stage.pipeline.schema.namedNodes

def mediaNames : Value × MediaMember → List (String × Schema)
  | (_, .data _) => []
  | (_, .schema s) => s.namedNodes

def memberNames : Value × ResponseMember → List (String × Schema)
  | (_, .data _) => []
  | (_, .content types) => types.flatMap fun t => t.2.flatMap mediaNames

/-- The names that a declared response comes to. -/
def responseNames (r : ResponseDescription) : List (String × Schema) := r.flatMap memberNames

/-- The name of the response to input that fails, and the names below it. -/
def failureNames : List (String × Schema) :=
  ("ValidationErrorResponse", validationErrorSchema) :: validationErrorSchema.namedBelow

/-- The responses that a route declares, under their statuses. -/
def declaredBy (route : Route) : List (Value × ResponseDescription) :=
  (route.description.map (·.responses)).getD []

/-- The names that the operation of a route comes to: those of its parameters, of its body, of its declared
responses, and of the response to input that fails for every validation that may need it. -/
def routeNames (route : Route) : List (String × Schema) :=
  route.validators.flatMap parameterNames ++ (route.validators.flatMap bodyNames ++
    ((declaredBy route).flatMap (fun r => responseNames r.2) ++ route.validators.flatMap fun _ => failureNames))

/-- The names that the documentation of a registry comes to, with their schemas: registered components with what is
named in them, and then the visible routes. -/
def names (r : Registry) : List (String × Schema) :=
  r.components.flatMap (fun c => c :: c.2.namedBelow) ++ (r.routes.filter isVisible).flatMap routeNames

/-! ### Operations -/

variable {Possible : Fault → Prop} {settings : Settings} {route : Route} {v : RouteValidator}

theorem proceeds_validatorParameters (hstage : v.stage.IsChecked) (h : v.stage.pipeline.schema.Documentable) :
    Proceeds Possible (parameterNames v) (validatorParameters v) := by
  unfold validatorParameters parameterNames
  dsimp only
  cases hlocation : location? v.stage.target with
  | none => exact .pure _
  | some location =>
      have hobject : v.stage.pipeline.schema.object?.isSome = true := hstage.spec.2 fun htarget => by
        rw [htarget] at hlocation
        cases hlocation
      obtain ⟨⟨f, ps⟩, hobject⟩ := Option.isSome_iff_exists.mp hobject
      rw [hobject]
      refine .mapM fun p hp => ?_
      have hnodes : p.2.nodes ⊆ v.stage.pipeline.schema.nodes := by
        refine List.Subset.trans ?_ (nodes_unwrap_subset _)
        obtain ⟨a, hunwrap⟩ := object?_eq_some hobject
        rw [hunwrap]
        exact nodes_property_subset hp
      exact (proceeds_document fun t ht => h t (hnodes ht)).followed fun _ _ => .pure _

theorem proceeds_validatorContent (h : v.stage.pipeline.schema.Documentable) :
    Proceeds Possible (bodyNames v) (validatorContent v) := by
  unfold validatorContent bodyNames
  cases bodyMediaTypes v.stage.target with
  | nil => exact .pure _
  | cons t types => exact (proceeds_document h).followed fun _ _ => .pure _

theorem proceeds_responseSchema {s : Schema}
    (h : s.Documentable ∨ ∃ entries, s = .foreign (.dict entries)) :
    Proceeds Possible s.namedNodes (responseSchema s) := by
  rcases h with h | ⟨entries, rfl⟩
  · unfold responseSchema
    rw [if_pos (h s s.mem_nodes_self).1]
    exact proceeds_document h
  · exact (Proceeds.pure _).mono (List.nil_sublist _)

theorem proceeds_declaredResponse {r : ResponseDescription}
    (h : ∀ s ∈ RouteDescription.responseSchemas r,
      s.Documentable ∨ ∃ entries, s = .foreign (.dict entries)) :
    Proceeds Possible (responseNames r) (declaredResponse r) := by
  refine (Proceeds.mapM fun m hm => ?_).followed fun _ _ => .pure _
  obtain ⟨key, w | types⟩ := m
  · exact .pure _
  · refine (Proceeds.mapM fun t ht => ?_).followed fun _ _ => .pure _
    refine (Proceeds.mapM fun m' hm' => ?_).followed fun _ _ => .pure _
    obtain ⟨key', w | s⟩ := m'
    · exact .pure _
    · refine (proceeds_responseSchema (h s ?_)).followed fun _ _ => .pure _
      exact List.mem_flatMap.mpr ⟨_, hm, List.mem_flatMap.mpr ⟨t, ht, List.mem_filterMap.mpr ⟨_, hm', rfl⟩⟩⟩

/-- The statuses of the responses of a route fail to have a text in possible ways only. -/
structure StatusFaults (Possible : Fault → Prop) (settings : Settings) (route : Route) : Prop where
  declared : ∀ r ∈ declaredBy route, ∀ f, r.1.plain = .error f → Possible f
  refusals : ∀ v ∈ route.validators, ∀ f, intText (v.stage.statusFor settings) = .error f → Possible f

/-- The text of a status is all that a declared response can lack. -/
theorem proceeds_declaredResponses
    (h : ∀ r ∈ declaredBy route, ∀ s ∈ RouteDescription.responseSchemas r.2,
      s.Documentable ∨ ∃ entries, s = .foreign (.dict entries))
    (hpossible : ∀ r ∈ declaredBy route, ∀ f, r.1.plain = .error f → Possible f) :
    Proceeds Possible ((declaredBy route).flatMap fun r => responseNames r.2) (declaredResponses route) := by
  refine .foldlM (fun responses r hr => ?_) []
  refine (proceeds_declaredResponse (h r hr)).followed fun doc _ => ?_
  exact (Proceeds.lift (hpossible r hr)).followed fun _ _ => .pure _

theorem documentable_validationErrorSchema : validationErrorSchema.Documentable := by
  have hnodes : ∀ t ∈ validationErrorSchema.nodes,
      t.isNode = true ∧ ∀ a ∈ t.annotations?, a.default = none ∧ a.examples = none := by
    simp [validationErrorSchema, nodes_eq, children, isNode, annotations?]
  intro t ht
  obtain ⟨hkind, hplain⟩ := hnodes t ht
  refine ⟨hkind, fun a ha => ?_⟩
  obtain ⟨hdefault, hexamples⟩ := hplain a ha
  exact ⟨by simp [hdefault], by simp [hexamples]⟩

theorem proceeds_addFailures (responses : List (String × Doc)) (statuses : List String) :
    Proceeds Possible (statuses.flatMap fun _ => failureNames) (addFailures responses statuses) := by
  refine .foldlM (fun responses status _ => ?_) responses
  split
  · exact (Proceeds.pure _).mono (List.nil_sublist _)
  · have hfailure : Proceeds Possible failureNames failureResponse :=
      (proceeds_inlineDoc documentable_validationErrorSchema).add.followed fun _ _ => .pure _
    exact hfailure.followed fun _ _ => .pure _

theorem proceeds_failureStatuses (hpossible : StatusFaults Possible settings route) :
    Proceeds Possible [] (failureStatuses settings route : Build (List String)) := by
  refine .lift fun f hf => ?_
  rcases bind_eq_error_iff.mp hf with hf | ⟨_, -, hf⟩
  · obtain ⟨before, v, after, hvalidators, -, hf⟩ := mapM_eq_error_iff.mp hf
    exact hpossible.refusals v (hvalidators ▸ List.mem_append_right _ List.mem_cons_self) f hf
  · cases hf

/-- A route has no more failure statuses than validations. -/
theorem length_failureStatuses_le {statuses : List String} (h : failureStatuses settings route = .ok statuses) :
    statuses.length ≤ route.validators.length := by
  obtain ⟨texts, htexts, hstatuses⟩ := bind_eq_ok_iff.mp h
  obtain rfl := Except.ok.inj hstatuses
  rw [(mapM_eq_ok_iff.mp htexts).length_eq]
  exact length_eraseDups_le texts

/-- The response to input that fails comes to the same names for every status. -/
theorem sublist_failureNames {α β : Type} {xs : List α} {ys : List β} (h : xs.length ≤ ys.length) :
    (xs.flatMap fun _ => failureNames).Sublist (ys.flatMap fun _ => failureNames) := by
  induction xs generalizing ys with
  | nil => exact List.nil_sublist _
  | cons x xs ih =>
      obtain ⟨y, ys, rfl⟩ := List.exists_cons_of_length_pos (Nat.lt_of_lt_of_le (Nat.succ_pos _) h)
      exact (ih (Nat.le_of_succ_le_succ h)).append_left _

/-- What the documentation of a route relies on: its validations were made with their checks, and its schemas can be
documented. -/
structure Supported (route : Route) : Prop where
  stages : ∀ v ∈ route.validators, v.stage.IsChecked ∧ v.stage.pipeline.schema.Documentable
  declared : ∀ r ∈ declaredBy route, ∀ s ∈ RouteDescription.responseSchemas r.2,
    s.Documentable ∨ ∃ entries, s = .foreign (.dict entries)

theorem proceeds_operation (h : Supported route)
    (hpossible : StatusFaults Possible settings route) :
    Proceeds Possible (routeNames route) (operation settings route) := by
  have hparameters : Proceeds Possible (route.validators.flatMap parameterNames) (parameters route) :=
    (Proceeds.mapM fun v hv => proceeds_validatorParameters (h.stages v hv).1 (h.stages v hv).2).followed
      fun _ _ => .pure _
  have hbody : Proceeds Possible (route.validators.flatMap bodyNames) (requestBody route) := by
    refine (Proceeds.mapM fun v hv => proceeds_validatorContent (h.stages v hv).2).followed fun rows _ => ?_
    dsimp only
    split
    · exact .pure _
    · exact .pure _
  have hresponses : Proceeds Possible ((declaredBy route).flatMap (fun r => responseNames r.2) ++
      route.validators.flatMap fun _ => failureNames) (responses settings route) := by
    refine (proceeds_declaredResponses h.declared hpossible.declared).bind fun declared _ => ?_
    show Proceeds Possible ([] ++ route.validators.flatMap fun _ => failureNames) _
    refine (proceeds_failureStatuses hpossible).bind fun statuses hstatuses => ?_
    obtain ⟨c, c', hrun⟩ := hstatuses
    have hlength := length_failureStatuses_le (build_lift_eq_ok hrun).1
    exact ((proceeds_addFailures _ statuses).mono (sublist_failureNames hlength)).followed fun _ _ => .pure _
  exact hparameters.bind fun ps _ => hbody.bind fun body _ => hresponses.followed fun doc _ => .pure _

theorem proceeds_operations {routes : List Route} (h : ∀ route ∈ routes, Supported route)
    (hpossible : ∀ route ∈ routes, StatusFaults Possible settings route) :
    Proceeds Possible (routes.flatMap routeNames) (operations settings routes) := by
  refine .foldlM (fun paths route hroute => ?_) _
  exact (proceeds_operation (h route hroute) (hpossible route hroute)).followed fun _ _ => .pure _

/-- Documenting a registry comes to its names one after the other. -/
theorem proceeds_build {r : Registry} (hcomponents : ∀ c ∈ r.components, c.2.Documentable)
    (hroutes : ∀ route ∈ r.routes.filter isVisible, Supported route)
    (hpossible : ∀ route ∈ r.routes.filter isVisible, StatusFaults Possible settings route) :
    Proceeds Possible (names r) (build r settings) := by
  have hadd : ∀ c ∈ r.components, Proceeds Possible (c :: c.2.namedBelow) (Collector.add c.1 c.2) :=
    fun c hc => (proceeds_inlineDoc (hcomponents c hc)).add
  refine (Proceeds.forIn fun c hc => (hadd c hc).followed fun _ _ => .pure _).bind fun _ _ => ?_
  exact (proceeds_operations hroutes hpossible).followed fun paths _ => Proceeds.get.followed fun _ _ => .pure _

/-! ### Documents -/

/-- The schemas that the documentation of a registry shows. -/
def documentedSchemas (r : Registry) : List Schema :=
  r.components.map (·.2) ++ (r.routes.filter isVisible).flatMap shownSchemas

/-- Every response that a documented route declares has a status with a text. -/
def StatusesHaveTexts (r : Registry) : Prop :=
  ∀ route ∈ r.routes.filter isVisible, ∀ d ∈ declaredBy route, ∃ text, d.1.plain = .ok text

theorem statusesHaveTexts_of_generate {r : Registry} {doc : Doc} (h : generate r settings = .ok doc) :
    StatusesHaveTexts r := by
  intro route hroute d hd
  obtain ⟨operations, hoperations, -⟩ := generate_eq_ok h
  obtain ⟨o, -, -, hoperation⟩ := exists_right_of_forall₂ hoperations hroute
  obtain ⟨c, c', hrun⟩ := hoperation.built
  -- the declared responses come behind the parameters and the body
  obtain ⟨ps, c₁, -, hrun⟩ := build_bind_eq_ok hrun
  obtain ⟨body, c₂, -, hrun⟩ := build_bind_eq_ok hrun
  obtain ⟨responses, c₃, hresponses, -⟩ := build_bind_eq_ok hrun
  obtain ⟨declared, c₄, hdeclared, -⟩ := build_bind_eq_ok hresponses
  obtain ⟨z, z', k, k', hstep⟩ := build_foldlM_eq_ok hdeclared d hd
  obtain ⟨doc', k₁, -, hstep⟩ := build_bind_eq_ok hstep
  obtain ⟨text, k₂, htext, -⟩ := build_bind_eq_ok hstep
  exact ⟨text, (build_lift_eq_ok htext).1⟩

/-- What registration and its checks let through, as far as the documentation relies on it: the registry was filled by
registrations, and its validations and descriptions were made with their checks. Besides, every default and all
examples can be written as JSON, and schemas that the documentation comes to under one name are equal. -/
structure Accepted (r : Registry) : Prop where
  reachable : r.Reachable
  stages : ∀ route ∈ r.routes, ∀ stage, .validation stage ∈ route.stages → stage.IsChecked
  descriptions : ∀ route ∈ r.routes, ∀ d, .description d ∈ route.stages → d.IsChecked
  serializable : ∀ s ∈ documentedSchemas r, ∀ t ∈ s.nodes, ∀ a ∈ t.annotations?, a.Serializable
  consistent : Consistent (names r)

namespace Accepted

variable {r : Registry}

theorem documentable (h : Accepted r) : ∀ c ∈ r.components, c.2.Documentable := by
  intro c hc t ht
  obtain ⟨v, hv⟩ := h.reachable.sound.components c hc
  exact ⟨isNode_of_compileAt hv t ht,
    h.serializable c.2 (List.mem_append_left _ (List.mem_map_of_mem hc)) t ht⟩

theorem supported (h : Accepted r) : ∀ route ∈ r.routes.filter isVisible, Supported route := by
  intro route hroute
  have hmem := (List.mem_filter.mp hroute).1
  have hsound := h.reachable.sound.routes route hmem
  have hserializable : ∀ s ∈ shownSchemas route, ∀ t ∈ s.nodes, ∀ a ∈ t.annotations?, a.Serializable :=
    fun s hs => h.serializable s (List.mem_append_right _ (List.mem_flatMap.mpr ⟨route, hroute, hs⟩))
  constructor
  · intro v hv
    have hchecked := h.stages route hmem v.stage (hsound.mem_validators.mp hv).2.2
    refine ⟨hchecked, fun t ht => ⟨isNode_of_compileAt hchecked.spec.1 t ht, ?_⟩⟩
    exact hserializable _ (List.mem_append_left _ (List.mem_map_of_mem hv)) t ht
  · intro d hd s hs
    have hshown : s ∈ shownSchemas route := List.mem_append_right _ (List.mem_flatMap.mpr ⟨d, hd, hs⟩)
    unfold declaredBy at hd
    cases hdescription : route.description with
    | none =>
        rw [hdescription] at hd
        cases hd
    | some description =>
        rw [hdescription] at hd
        have hdescribed := h.descriptions route hmem description (hsound.description_mem hdescription)
        refine (hdescribed.schemas d hd s hs).imp_left fun hnode t ht => ⟨?_, hserializable s hshown t ht⟩
        obtain ⟨v, hv⟩ := RouteDescription.exists_compile_of_checked hdescribed.checked d hd s hs hnode
        exact isNode_of_compileAt hv t ht

/-- With settings that are accepted, every status with which a validation refuses input has a text. -/
theorem text_of_refusal (h : Accepted r) {entries : List (Value × Value)}
    (hsettings : Settings.ofEntries entries = .ok settings) {route : Route} (hroute : route ∈ r.routes)
    {v : RouteValidator} (hv : v ∈ route.validators) :
    intText (v.stage.statusFor settings) = .ok (toString (v.stage.statusFor settings)) := by
  have hstage := ((h.reachable.sound.routes route hroute).mem_validators.mp hv).2.2
  obtain ⟨hlow, hhigh⟩ :=
    (h.stages route hroute v.stage hstage).range_statusFor (Settings.range_failureStatus hsettings)
  exact (text_of_clientError hlow hhigh).1

/-- The only fault that the documentation can have is that of a declared status without a text. -/
theorem exists_plain_of_generate (h : Accepted r) {entries : List (Value × Value)}
    (hsettings : Settings.ofEntries entries = .ok settings) {f : Fault} (hf : generate r settings = .error f) :
    ∃ route ∈ r.routes.filter isVisible, ∃ d ∈ declaredBy route, d.1.plain = .error f := by
  have hbuild : Proceeds (fun f => ∃ route ∈ r.routes.filter isVisible, ∃ d ∈ declaredBy route, d.1.plain = .error f)
      (names r) (build r settings) := by
    refine proceeds_build h.documentable h.supported fun route hroute => ?_
    refine ⟨fun d hd f hf => ⟨route, hroute, d, hd, hf⟩, fun v hv f hf => ?_⟩
    rw [h.text_of_refusal hsettings (List.mem_filter.mp hroute).1 hv] at hf
    cases hf
  exact hbuild.possible (c := {}) h.consistent (Prod.ext hf rfl)

end Accepted

/-- What stands for a status where responses are described: a text, such as that of a range of codes, or a status code,
which has three digits. -/
def IsStatus : Value → Prop
  | .str _ => True
  | .int n => 100 ≤ n ∧ n ≤ 999
  | _ => False

/-- The responses that the documented routes describe are under statuses. -/
def DescribesStatuses (r : Registry) : Prop :=
  ∀ route ∈ r.routes.filter isVisible, ∀ d ∈ declaredBy route, IsStatus d.1

theorem exists_plain_of_isStatus {v : Value} (h : IsStatus v) : ∃ text, v.plain = .ok text := by
  cases v with
  | str s => exact ⟨s, rfl⟩
  | int n =>
      have hsmall : n.natAbs < Nat.pow 10 3 := by
        show n.natAbs < 1000
        obtain ⟨hlow, hhigh⟩ := h
        omega
      have hlimit : Numeral.withinLimit n = true := by
        rw [Numeral.withinLimit, decide_eq_true_eq]
        exact Numeral.lt_pow_of_le hsmall (by decide)
      have hplain : (Value.int n).plain = intText n := rfl
      rw [hplain]
      exact intText_eq_ok_iff.mpr hlimit
  | _ => exact h.elim

/-- **What registration accepts can be documented**: the documentation finds no defect in it, and it has a document
where responses are described under statuses. What else is given in the place of a status is turned into its text, and
there is a document exactly if that can be done: an integer beyond the limit has no text. -/
theorem exists_generate {r : Registry} (h : Accepted r) {entries : List (Value × Value)}
    (hsettings : Settings.ofEntries entries = .ok settings) :
    (DescribesStatuses r → ∃ doc, generate r settings = .ok doc) ∧
      (∀ defect, generate r settings ≠ .error (.documentation defect)) ∧
      ((∃ doc, generate r settings = .ok doc) ↔ StatusesHaveTexts r) := by
  have hdocument (htexts : StatusesHaveTexts r) : ∃ doc, generate r settings = .ok doc := by
    cases hgenerate : generate r settings with
    | ok doc => exact ⟨doc, rfl⟩
    | error f =>
        obtain ⟨route, hroute, d, hd, hplain⟩ := h.exists_plain_of_generate hsettings hgenerate
        obtain ⟨text, htext⟩ := htexts route hroute d hd
        rw [htext] at hplain
        cases hplain
  refine ⟨fun hstatuses => hdocument fun route hroute d hd => ?_, fun defect hdefect => ?_, ?_, hdocument⟩
  · exact exists_plain_of_isStatus (hstatuses route hroute d hd)
  · obtain ⟨route, hroute, d, hd, hplain⟩ := h.exists_plain_of_generate hsettings hdefect
    cases Value.limited_plain d.1 _ hplain
  · rintro ⟨doc, hdoc⟩
    exact statusesHaveTexts_of_generate hdoc

/-- A currency, which has a default. -/
def currency : Schema := .string { name := some "Currency", default := some (.str "EUR") } {}

/-- A validation of the currency that is asked for. -/
def currencyStage : ValidationStage where
  target := .query
  pipeline := ⟨.object {} {} [(.str "currency", currency)],
    .object ⟨["currency"], false⟩ [("currency", .string ⟨none, none, none, none, none⟩)]⟩

/-- A description of the responses with prices, and of the one to a currency that is not known. -/
def priceDescription : RouteDescription where
  responses :=
    [(.int 200, [(.str "content", .content [(.str jsonMediaType,
        [(.str "schema", .schema (.object {} {} [(.str "currency", currency), (.str "amount", .integer {} {})]))])])]),
      (.str "404", [(.str "description", .data (.str "Unknown currency"))])]

def pricesHandler : Handler := .function "prices" fun _ => { result := .ok (.value .null) }

/-- A route that answers with prices in a currency. -/
def pricesRoute : Route where
  method := "GET"
  path := "/prices"
  stages := [.description priceDescription, .validation currencyStage]
  handler := pricesHandler
  name := none
  validators := [⟨"GET", "/prices", currencyStage⟩]
  description := some priceDescription

/-- Prices in a currency, which is a component besides. -/
def prices : Registry where
  routes := [pricesRoute]
  components := [("Currency", currency)]

theorem reachable_prices : prices.Reachable := by
  have hcomponent : ({} : Registry).addComponent "Currency" currency =
      .ok { components := [("Currency", currency)] } := rfl
  have hroute : ({ components := [("Currency", currency)] } : Registry).addRoute "get" "/prices"
      [.description priceDescription, .validation currencyStage] pricesHandler none =
      .ok (prices, ⟨0, "GET", "/prices"⟩) := rfl
  exact .addRoute (.addComponent .empty hcomponent) hroute

/-- The currency of the component, of the validation and of the response share their name, and they are equal. -/
theorem accepted_prices : Accepted prices := by
  have hstage : currencyStage.IsChecked := ⟨.str "query", currencyStage.pipeline.schema, none, none, rfl⟩
  have hserializable : ∀ s ∈ documentedSchemas prices, ∀ t ∈ s.nodes, ∀ a ∈ t.annotations?,
      (∀ v ∈ a.default, Json.isSerializable v = true) ∧ a.examples = none := by
    decide +kernel
  refine ⟨reachable_prices, fun route hroute stage hstage' => ?_, fun route hroute d hd => ?_,
    fun s hs t ht a ha => ?_, ?_⟩
  · obtain rfl := List.mem_singleton.mp hroute
    obtain rfl : stage = currencyStage := by simpa [pricesRoute] using hstage'
    exact hstage
  · obtain rfl := List.mem_singleton.mp hroute
    obtain rfl : d = priceDescription := by simpa [pricesRoute] using hd
    have hnodes : ∀ r ∈ priceDescription.responses, ∀ s ∈ RouteDescription.responseSchemas r.2, s.isNode = true := by
      decide
    exact ⟨rfl, fun r hr s hs => .inl (hnodes r hr s hs)⟩
  · exact ⟨(hserializable s hs t ht a ha).1, by simp [(hserializable s hs t ht a ha).2]⟩
  · unfold Consistent
    decide +kernel

theorem exists_generate_prices : ∃ doc, generate prices {} = .ok doc := by
  have hsettings : Settings.ofEntries [] = .ok {} := rfl
  have hstatuses : DescribesStatuses prices := by
    intro route hroute d hd
    obtain rfl := List.mem_singleton.mp hroute
    rcases List.mem_pair.mp hd with rfl | rfl
    · exact ⟨by decide, by decide⟩
    · trivial
  exact (exists_generate accepted_prices hsettings).1 hstatuses

end Documentation

end ApiContract
