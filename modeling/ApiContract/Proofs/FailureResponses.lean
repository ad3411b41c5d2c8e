import ApiContract.Proofs.CanonicalText
import ApiContract.Proofs.Passage
import ApiContract.Proofs.ResolvedReferences

/-!
# Responses to input that fails

A validation whose hook leaves a failure alone answers with a status of client errors (`respond_of_failsAt`).
The operation of its route documents a response with this status: one that the route declares, or the response
for validation errors (`documents_failure`).
-/

namespace ApiContract

namespace Settings

variable {α β : Type}

/-- Two results are there only if each of them is. -/
theorem both_eq_ok {a : Read α} {b : Read β} {x : α} {y : β} (h : both a b = .ok (x, y)) :
    a = .ok x ∧ b = .ok y := by
  cases a with
  | error ds => cases b <;> cases h
  | ok x' =>
      cases b with
      | error es => cases h
      | ok y' =>
          obtain ⟨rfl, rfl⟩ := Prod.mk.inj (Except.ok.inj h)
          exact ⟨rfl, rfl⟩

theorem range_of_readFailureStatus {location : String} {v : Value} {n : Int}
    (h : readFailureStatus location v = .ok n) : 400 ≤ n ∧ n ≤ 499 := by
  obtain ⟨m, -, h⟩ := bind_eq_ok_iff.mp h
  split_ifs at h with hrange
  · obtain rfl := Except.ok.inj h
    exact hrange
  · cases h

/-- Settings that are accepted have a status of client errors. -/
theorem range_failureStatus {entries : List (Value × Value)} {settings : Settings}
    (h : ofEntries entries = .ok settings) : 400 ≤ settings.failureStatus ∧ settings.failureStatus ≤ 499 := by
  unfold ofEntries at h
  extract_lets standard get texts documents runtime result at h
  obtain ⟨r, hresult⟩ : ∃ r, result = r := ⟨_, rfl⟩
  rw [hresult] at h
  split at h
  · obtain rfl := Except.ok.inj h
    obtain ⟨-, hrest⟩ := both_eq_ok hresult
    obtain ⟨hdocuments, -⟩ := both_eq_ok hrest
    obtain ⟨-, hrest⟩ := both_eq_ok hdocuments
    obtain ⟨-, hstatus⟩ := both_eq_ok hrest
    dsimp only [get] at hstatus
    unfold field at hstatus
    split at hstatus
    · exact range_of_readFailureStatus hstatus
    · obtain rfl := Except.ok.inj hstatus
      exact ⟨Int.le_refl 400, (by decide : (400 : Int) ≤ 499)⟩
  · cases h

end Settings

namespace Routing

/-! ### Failing requests -/

/-- The status that a stage has of its own is one of client errors. -/
theorem ValidationStage.IsChecked.range {stage : ValidationStage} (h : stage.IsChecked) {n : Int}
    (hn : stage.failureStatus = some n) : 400 ≤ n ∧ n ≤ 499 := by
  obtain ⟨target, s, hook, failureStatus, h⟩ := h
  unfold ValidationStage.checked at h
  extract_lets rest at h
  have hrest (h : rest () = .ok stage) : stage.failureStatus = failureStatus := by
    obtain ⟨t, -, h⟩ := bind_eq_ok_iff.mp h
    dsimp only at h
    split_ifs at h
    · cases h
    · obtain ⟨pipeline, -, h⟩ := bind_eq_ok_iff.mp h
      obtain rfl := Except.ok.inj h
      rfl
  split at h
  · split_ifs at h with hrange
    · obtain rfl := Option.some.inj ((hrest h).symm.trans hn)
      simpa using hrange
    · obtain ⟨_, -, h⟩ := bind_eq_ok_iff.mp h
      cases h
  · rw [hrest h] at hn
    cases hn

/-- The status of responses to input that fails is one of client errors, be it that of the stage or of the
settings. -/
theorem ValidationStage.IsChecked.range_statusFor {stage : ValidationStage} (h : stage.IsChecked)
    {settings : Settings} (hsettings : 400 ≤ settings.failureStatus ∧ settings.failureStatus ≤ 499) :
    400 ≤ stage.statusFor settings ∧ stage.statusFor settings ≤ 499 := by
  unfold ValidationStage.statusFor
  split
  · exact hsettings
  · exact hsettings
  · rename_i n _ hn
    exact h.range hn

/-- A request fails at a validation of a route: the stages before it let the request pass, the validation finds
violations, and its hook leaves them alone. -/
def Route.FailsAt (route : Route) (stage : ValidationStage) (c c' : Context) : Prop :=
  ∃ before after c₁ errors c₂, route.stages = before ++ .validation stage :: after ∧ Passes before c c₁ ∧
    runIn stage.validate c₁ = (.ok (.failure errors), c₂) ∧
    runIn (stage.consult (.failure errors)) c₂ = (.ok .proceed, c')

theorem settings_validate (stage : ValidationStage) (c : Context) :
    (runIn stage.validate c).2.settings = c.settings := by
  rw [ValidationStage.runIn_validate]

theorem settings_consult (stage : ValidationStage) (outcome : Outcome) (c : Context) :
    (runIn (stage.consult outcome) c).2.settings = c.settings := by
  cases h : stage.hook with
  | none => rw [ValidationStage.runIn_consult_none h]
  | some hook => rw [ValidationStage.runIn_consult_some h]

/-- A list of violations can always be sent. -/
theorem exists_failureResponse (status : Http.Status) (errors : List ErrorRecord) :
    ∃ body, Http.Response.json status (Outcome.failurePayload errors) =
      .ok ⟨status, some Http.Response.jsonType, body⟩ := by
  have hrecords : ∃ texts, Json.writeItems Json.responseStyle 2 (errors.map fun e =>
      .record [("path", .str e.path), ("message", .str e.message)]) = .ok texts := by
    rw [Json.writeItems_eq]
    refine exists_mapM_eq_ok fun v hv => ?_
    obtain ⟨e, -, rfl⟩ := List.mem_map.mp hv
    exact ⟨_, rfl⟩
  obtain ⟨texts, htexts⟩ := hrecords
  have herrors : Json.writeAt Json.responseStyle 1 (.list (errors.map fun e =>
      .record [("path", .str e.path), ("message", .str e.message)])) =
      .ok (Json.bracketed Json.responseStyle 1 "[" "]" texts) :=
    bind_eq_ok_iff.mpr ⟨texts, htexts, rfl⟩
  have hmembers : ∃ ms, Json.writeMembers Json.responseStyle 1 [(.str "success", .bool false),
      (.str "errors", .list (errors.map fun e =>
        .record [("path", .str e.path), ("message", .str e.message)]))] = .ok ms := by
    rw [Json.writeMembers_eq]
    refine exists_mapM_eq_ok fun e he => ?_
    rcases List.mem_cons.mp he with rfl | he
    · exact ⟨_, rfl⟩
    · obtain rfl := List.mem_singleton.mp he
      exact ⟨_, Json.writeMember_eq_ok.mpr ⟨_, herrors, rfl⟩⟩
  obtain ⟨ms, hms⟩ := hmembers
  exact ⟨_, bind_eq_ok_iff.mpr ⟨_, bind_eq_ok_iff.mpr ⟨ms, hms, rfl⟩, rfl⟩⟩

/-- A request that fails at a validation is answered with the status of the validation. -/
theorem respond_of_failsAt {route : Route} {stage : ValidationStage} {c c' : Context}
    (h : route.FailsAt stage c c') :
    ∃ body, runIn route.respond c =
      (.ok ⟨.code (stage.statusFor c.settings), some Http.Response.jsonType, body⟩, c') := by
  obtain ⟨before, after, c₁, errors, c₂, hstages, hbefore, hvalidate, hconsult⟩ := h
  have hsettings : c'.settings = c.settings := by
    obtain ⟨-, -, hbefore⟩ := sameInput_of_passes hbefore
    have hc₂ := settings_validate stage c₁
    have hc' := settings_consult stage (.failure errors) c₂
    rw [hvalidate] at hc₂
    rw [hconsult] at hc'
    exact (hc'.trans hc₂).trans hbefore
  obtain ⟨body, hbody⟩ := exists_failureResponse (.code (stage.statusFor c.settings)) errors
  refine ⟨body, Route.respond_of_stop ?_⟩
  rw [hstages]
  refine runStages_stop hbefore ?_ after
  show runIn stage.run c₁ = _
  unfold ValidationStage.run
  rw [runIn_bind_ok hvalidate, runIn_bind_ok hconsult]
  dsimp only
  rw [ValidationStage.runIn_settle_failure, hsettings, hbody]
  rfl

end Routing

namespace Documentation

open Routing Schema

/-! ### Documented responses -/

/-- A new response is the one of its status, and the other statuses keep theirs. -/
theorem lookup_bindResponse (responses : List (String × Doc)) (status key : String) (d : Doc) :
    (bindResponse responses status d).lookup key = if key = status then some d else responses.lookup key := by
  rw [bindResponse, lookup_concat, lookup_filter_key responses (fun k => k != status)]
  by_cases hkey : key = status
  · rw [if_pos hkey, if_pos hkey, if_neg (by simpa using hkey), Option.none_or]
  · rw [if_neg hkey, if_neg hkey, if_pos (by simpa using hkey), Option.or_none]

/-- Sorting keeps the responses of the statuses. -/
theorem lookup_sortResponses (responses : List (String × Doc)) (status : String) :
    (sortResponses responses).lookup status = responses.lookup status := by
  rw [sortResponses, lookup_filterMap_pair]
  split_ifs with hmem
  · rfl
  · symm
    rw [← Option.not_isSome_iff_eq_none, ← any_key_eq, List.any_eq_true]
    rintro ⟨r, hr, hstatus⟩
    refine hmem (Collector.mem_sortTexts.mpr ?_)
    exact beq_iff_eq.mp hstatus ▸ List.mem_map_of_mem hr

/-- A route declares a response: the document is that of what it describes under a key with the text of the
status. -/
def Declares (route : Route) (status : String) (d : Doc) : Prop :=
  ∃ description ∈ route.description, ∃ r ∈ description.responses, r.1.plain = .ok status ∧
    ∃ c c', (declaredResponse r.2).run c = (.ok d, c')

/-- The document of the response to input that fails validation. -/
def failureDoc : Doc :=
  .record [("description", .text "Validation failed"),
    ("content", .record [(jsonMediaType, .record [("schema", .referTo "ValidationErrorResponse")])])]

/-- A document is the response to input that fails validation, and the name that it refers to is bound to the
schema of validation errors. -/
def IsFailureResponse (source? : String → Option Schema) (d : Doc) : Prop :=
  d = failureDoc ∧ BoundTo source? "ValidationErrorResponse" validationErrorSchema

variable {source? : String → Option Schema}

/-- Every name may be bound to every schema. -/
abbrev Anything : String → Schema → Prop := fun _ _ => True

theorem namesAllowed_anything (s : Schema) : NamesAllowed Anything s := fun _ _ _ _ => trivial

theorem collects_declares (route : Route) :
    Collects Anything source? (declaredResponses route) fun rs =>
      ∀ status d, rs.lookup status = some d → Declares route status d := by
  refine (Collects.foldlM (Q := fun rs => ∀ status d, rs.lookup status = some d → Declares route status d)
    (fun responses r hr => ?_) []).imp fun rs hall => hall fun _ _ h => by cases h
  have hdescribed : ∃ description ∈ route.description, r ∈ description.responses := by
    cases hdescription : route.description with
    | none =>
        rw [hdescription] at hr
        cases hr
    | some description =>
        rw [hdescription] at hr
        exact ⟨description, rfl, hr⟩
  obtain ⟨description, hdescription, hr⟩ := hdescribed
  have hdeclared : Collects Anything source? (declaredResponse r.2) fun d =>
      ∃ c c', (declaredResponse r.2).run c = (.ok d, c') := by
    refine (Collects.and_of_run (fun c c' d hrun => ⟨c, c', hrun⟩)
      (collects_declaredResponse fun s _ => namesAllowed_anything s)).imp fun d h => h.1
  refine hdeclared.bind fun d => ?_
  refine (Collects.lift (Q := fun status => r.1.plain = .ok status) fun _ h => h).bind fun status => .pure ?_
  intro hstatus hd hresponses key e he
  rw [lookup_bindResponse] at he
  split_ifs at he with hkey
  · obtain rfl := Option.some.inj he
    exact ⟨description, hdescription, r, hr, hkey ▸ hstatus, hd⟩
  · exact hresponses key e he

theorem collects_isFailureResponse :
    Collects Anything source? failureResponse (IsFailureResponse source?) := by
  refine (collects_add trivial fun _ => collects_inlineDoc (namesAllowed_anything _)).bind fun schema => .pure ?_
  rintro ⟨rfl, hbound⟩
  exact ⟨rfl, hbound⟩

/-- Every status has a response in the end: the one that it has had, or else the response to input that fails. -/
theorem collects_addFailures_lookup (responses : List (String × Doc)) (statuses : List String) :
    Collects Anything source? (addFailures responses statuses) fun rs =>
      (∀ status d, responses.lookup status = some d → rs.lookup status = some d) ∧
        ∀ status ∈ statuses, ∃ d, rs.lookup status = some d ∧
          (responses.lookup status = some d ∨ IsFailureResponse source? d) := by
  induction statuses generalizing responses with
  | nil => exact .pure ⟨fun _ _ h => h, List.forall_mem_nil _⟩
  | cons status statuses ih =>
      unfold addFailures at ih ⊢
      rw [List.foldlM_cons]
      -- what the first status has after its step, it has in the end
      have hstep : Collects Anything source? (do
          if responses.any (·.1 == status) then return responses
          return bindResponse responses status (← failureResponse)) fun rs =>
          (∀ key d, responses.lookup key = some d → rs.lookup key = some d) ∧
          (∀ key, key ≠ status → rs.lookup key = responses.lookup key) ∧
          ∃ d, rs.lookup status = some d ∧
            (responses.lookup status = some d ∨ IsFailureResponse source? d) := by
        rw [any_key_eq]
        cases hstatus : responses.lookup status with
        | some d => exact .pure ⟨fun _ _ h => h, fun _ _ => rfl, d, hstatus, .inl rfl⟩
        | none =>
            refine collects_isFailureResponse.bind fun d => .pure fun hd => ⟨fun key e he => ?_, fun key hkey => ?_,
              d, ?_, .inr hd⟩
            · rw [lookup_bindResponse, if_neg, he]
              rintro rfl
              rw [hstatus] at he
              cases he
            · rw [lookup_bindResponse, if_neg hkey]
            · rw [lookup_bindResponse, if_pos rfl]
      refine hstep.bind fun next => (ih next).imp ?_
      rintro rs ⟨hkept, hall⟩ ⟨hfirst, hothers, d, hd, hcase⟩
      refine ⟨fun key e he => hkept key e (hfirst key e he), fun key hkey => ?_⟩
      by_cases heq : key = status
      · subst heq
        exact ⟨d, hkept key d hd, hcase⟩
      · obtain ⟨e, he, hcase⟩ := hall key ((List.mem_cons.mp hkey).resolve_left heq)
        exact ⟨e, he, hcase.imp_left fun h => (hothers key heq).symm.trans h⟩

/-- A response for a status is documented: it is declared by the route, or it is the response to input that
fails. -/
def DocumentsFailure (source? : String → Option Schema) (route : Route) (status : String) (d : Doc) : Prop :=
  Declares route status d ∨ IsFailureResponse source? d

/-- The status with which a validation refuses input is among the failure statuses of its route. -/
theorem mem_of_failureStatuses {settings : Settings} {route : Route} {statuses : List String}
    (h : failureStatuses settings route = .ok statuses) {v : RouteValidator} (hv : v ∈ route.validators)
    {status : String} (hstatus : intText (v.stage.statusFor settings) = .ok status) : status ∈ statuses := by
  obtain ⟨texts, htexts, hstatuses⟩ := bind_eq_ok_iff.mp h
  obtain rfl := Except.ok.inj hstatuses
  obtain ⟨text, htext, hshown⟩ := exists_right_of_forall₂ (mapM_eq_ok_iff.mp htexts) hv
  obtain rfl := Except.ok.inj (hstatus.symm.trans hshown)
  exact List.mem_eraseDups.mpr htext

theorem collects_responses_failure (settings : Settings) (route : Route) :
    Collects Anything source? (responses settings route) fun doc =>
      ∀ v ∈ route.validators, ∀ status, intText (v.stage.statusFor settings) = .ok status → status ≠ "200" →
        ∃ d, doc.get? status = some d ∧ DocumentsFailure source? route status d := by
  refine (collects_declares route).bind fun declared => ?_
  refine (Collects.lift fun statuses h => h).bind fun statuses => ?_
  refine (collects_addFailures_lookup _ _).bind fun all => .pure ?_
  rintro ⟨-, hall⟩ hstatuses hdeclared v hv status hstatus hsuccess
  obtain ⟨d, hd, hcase⟩ := hall status (mem_of_failureStatuses hstatuses hv hstatus)
  refine ⟨d, ?_, hcase.imp_left fun h => hdeclared status d ?_⟩
  · rw [Doc.get?_record, lookup_sortResponses, hd]
  · unfold addSuccess at h
    split at h
    · exact h
    · rwa [lookup_bindResponse, if_neg hsuccess] at h

theorem collects_operation_failure (settings : Settings) (route : Route) :
    Collects Anything source? (operation settings route) fun doc =>
      ∃ responses, doc.get? "responses" = some responses ∧
        ∀ v ∈ route.validators, ∀ status, intText (v.stage.statusFor settings) = .ok status → status ≠ "200" →
          ∃ d, responses.get? status = some d ∧ DocumentsFailure source? route status d := by
  refine (collects_parameters fun v _ => namesAllowed_anything _).bind fun ps => ?_
  refine (collects_requestBody fun v _ => namesAllowed_anything _).bind fun body => ?_
  refine (collects_responses_failure settings route).bind fun doc => .pure fun hdoc _ _ => ?_
  exact ⟨doc, Doc.get?_set_self _ _ _, hdoc⟩

/-- A status of client errors has a text, which is not the one that stands for success. -/
theorem text_of_clientError {s : Int} (h : 400 ≤ s) (h' : s ≤ 499) :
    intText s = .ok (toString s) ∧ toString s ≠ "200" := by
  have hall : ∀ n : Nat, n < 100 →
      intText (400 + (n : Int)) = .ok (toString (400 + (n : Int))) ∧ toString (400 + (n : Int)) ≠ "200" := by
    decide +kernel
  obtain ⟨n, rfl⟩ := Int.le.dest h
  exact hall n (by omega)

/-- **Every status with which a route refuses input is a documented client error.** A request that fails at a
validation is answered with a status of client errors, and every operation that documents the route under the
same settings has a response for this status: the route declares it, or it is the response to input that fails,
which refers to the schema of validation errors. -/
theorem documents_failure {r : Registry} (hr : r.Reachable) {route : Route} (hroute : route ∈ r.routes)
    (hchecked : ∀ stage, .validation stage ∈ route.stages → stage.IsChecked)
    {entries : List (Value × Value)} {settings : Settings} (hsettings : Settings.ofEntries entries = .ok settings)
    {c c' : Context} (hc : c.settings = settings) {stage : ValidationStage} (hfails : route.FailsAt stage c c') :
    let s := stage.statusFor settings
    (∃ response, runIn route.respond c = (.ok response, c') ∧ response.status = .code s) ∧ 400 ≤ s ∧ s ≤ 499 ∧
      ∀ k k' op, (operation settings route).run k = (.ok op, k') →
        ∃ responses d, op.get? "responses" = some responses ∧ responses.get? (toString s) = some d ∧
          (Declares route (toString s) d ∨ IsFailureResponse k'.source? d) := by
  obtain ⟨body, hrespond⟩ := respond_of_failsAt hfails
  rw [hc] at hrespond
  obtain ⟨before, after, -, -, -, hstages, -⟩ := hfails
  have hstage : .validation stage ∈ route.stages :=
    hstages ▸ List.mem_append_right _ List.mem_cons_self
  obtain ⟨hlow, hhigh⟩ := (hchecked stage hstage).range_statusFor (Settings.range_failureStatus hsettings)
  refine ⟨⟨_, hrespond, rfl⟩, hlow, hhigh, fun k k' op hop => ?_⟩
  -- the documentation knows the stage from the validators of the route
  have hvalidator : (⟨route.method, route.path, stage⟩ : RouteValidator) ∈ route.validators :=
    (hr.sound.routes route hroute).mem_validators.mpr ⟨rfl, rfl, hstage⟩
  obtain ⟨hstatus, hfailure⟩ := text_of_clientError hlow hhigh
  obtain ⟨responses, hresponses, hall⟩ :=
    ((collects_operation_failure settings route).completes hop).2 fun _ _ => id
  obtain ⟨d, hd, hcase⟩ := hall _ hvalidator _ hstatus hfailure
  exact ⟨responses, d, hresponses, hd, hcase⟩

/-- A lookup of a word, which has to be given. The hook notes what it sees. -/
def lookup : ValidationStage where
  target := .query
  pipeline :=
    ⟨.object {} {} [(.str "word", .string {} {})],
      .object ⟨["word"], false⟩ [("word", .string ⟨none, none, none, none, none⟩)]⟩
  hook := some fun outcome _ => ⟨[.bool outcome.isSuccess], .ok .proceed⟩

/-- The route of a lookup. -/
def lookupRoute : Route where
  method := "GET"
  path := "/words"
  stages := [.validation lookup]
  handler := .function "words" fun _ => { result := .ok (.value .null) }
  name := none
  validators := [⟨"GET", "/words", lookup⟩]
  description := none

/-- A request without a word is answered with the status of the settings, which is documented. -/
theorem documents_failure_lookup :
    ∃ settings c', Settings.ofEntries [(.str "failure_status_code", .int 422)] = .ok settings ∧
      (∃ response, runIn lookupRoute.respond { request := {}, settings } = (.ok response, c') ∧
        response.status = .code 422) ∧
      ∃ k' op responses d, (operation settings lookupRoute).run {} = (.ok op, k') ∧
        op.get? "responses" = some responses ∧ responses.get? "422" = some d ∧
        IsFailureResponse k'.source? d := by
  have hadd : ({} : Registry).addRoute "get" "/words" [.validation lookup] lookupRoute.handler none =
      .ok ({ routes := [lookupRoute] }, ⟨0, "GET", "/words"⟩) := rfl
  have hsettings : Settings.ofEntries [(.str "failure_status_code", .int 422)] =
      .ok { failureStatus := 422 } := rfl
  have hrun : ∃ op k', (operation { failureStatus := 422 } lookupRoute).run {} = (.ok op, k') :=
    exists_run_of_isOk (by decide +kernel)
  obtain ⟨op, k', hop⟩ := hrun
  have hchecked : lookup.IsChecked := ⟨.str "query", lookup.pipeline.schema, lookup.hook, none, rfl⟩
  have hfails : ∃ c', lookupRoute.FailsAt lookup { request := {}, settings := { failureStatus := 422 } } c' :=
    ⟨_, [], [], _, _, _, rfl, .nil _, rfl, rfl⟩
  obtain ⟨c', hfails⟩ := hfails
  obtain ⟨hresponse, -, -, hdocuments⟩ := documents_failure (.addRoute .empty hadd) List.mem_cons_self
    (fun stage hstage => Stage.validation.inj (List.mem_singleton.mp hstage) ▸ hchecked) hsettings rfl hfails
  obtain ⟨responses, d, hresponses, hd, hcase⟩ := hdocuments _ _ _ hop
  refine ⟨_, c', hsettings, hresponse, k', op, responses, d, hop, hresponses, hd, hcase.resolve_left ?_⟩
  rintro ⟨description, hdescription, -⟩
  cases hdescription

end Documentation

end ApiContract
