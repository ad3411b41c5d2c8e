import ApiContract.Proofs.BodyStates
import ApiContract.Proofs.Dispatch

/-!
# Bodies that cannot be decoded

A body that is no JSON text is a violation like any other: the validation fails with one record at the root, its
hook sees that, and the response lists the record (`Application.handle_undecodable`). A malformed form does not
come so far. Within an application it ends the request with a response of its own, and neither the hook nor the
status of the validation has a part in it.
-/

namespace ApiContract

namespace Http.Request

/-- The body of a request cannot be decoded for a target: it is no JSON text, or the form in it is malformed. -/
def Undecodable (r : Request) : Target → Prop
  | .json => r.body ≠ [] ∧ Json.readBytes? r.body = none
  | .form => r.formKind? = some .multipart ∧ ∃ d, Multipart.readFields r.contentType r.body = .error d
  | _ => False

variable {r : Request}

theorem read_of_undecodable_json (h : r.Undecodable .json) {state : BodyState} (hstate : state ≠ .consumed)
    (params : List (Value × Value)) (inApplication : Bool) :
    r.read params state inApplication .json = .error (.malformedBody "Malformed JSON body") := by
  obtain ⟨hbody, hread⟩ := h
  rw [read_eq_unread _ fun _ => hstate]
  show r.jsonBody = _
  unfold jsonBody
  rw [if_neg (by simpa using hbody), hread]

/-- A malformed form ends the request in an application. Outside of one it is a malformed body. -/
theorem exists_read_of_undecodable_form (h : r.Undecodable .form) :
    ∃ d, Multipart.readFields r.contentType r.body = .error d ∧ ∀ params state,
      r.read params state true .form = .error (.http 400 d.message) ∧
      r.read params state false .form = .error (.malformedBody ("Malformed form body: " ++ d.message)) := by
  obtain ⟨hkind, d, hfields⟩ := h
  have hform (inApplication : Bool) : r.form inApplication =
      .error (if inApplication then .http 400 d.message
        else .malformedBody ("Malformed form body: " ++ d.message)) := by
    unfold form
    rw [hkind]
    dsimp only
    rw [hfields]
    rfl
  refine ⟨d, hfields, fun params state => ⟨?_, ?_⟩⟩
  · show (do return Value.dict (foldPairs (← r.form true)) : Except Fault Value) = _
    rw [hform]
    rfl
  · show (do return Value.dict (foldPairs (← r.form false)) : Except Fault Value) = _
    rw [hform]
    rfl

end Http.Request

namespace Routing

open Http

/-- A request reaches a validation of an application: it goes to a route, whose earlier stages let it pass and
leave the context. -/
def Application.Reaches (app : Application) (request : Request) (before : List Stage) (stage : ValidationStage)
    (c : Context) : Prop :=
  ∃ m params route after, app.select request.method request.path = .ok (.found m params) ∧
    m.endpoint = .route route ∧ route.stages = before ++ .validation stage :: after ∧
    Passes before { request, params, settings := app.settings } c

namespace Application.Reaches

variable {app : Application} {request : Request} {before : List Stage} {stage : ValidationStage} {c c' : Context}

theorem input (h : app.Reaches request before stage c) : c.request = request ∧ c.settings = app.settings := by
  obtain ⟨m, params, route, after, -, -, -, hbefore⟩ := h
  obtain ⟨hrequest, -, hsettings⟩ := sameInput_of_passes hbefore
  exact ⟨hrequest, hsettings⟩

/-- The JSON body is gone exactly if one of the stages has read it as a form. -/
theorem isConsumed_iff (h : app.Reaches request before stage c) :
    c.body = .consumed ↔ request.formKind?.isSome = true ∧ Request.FormFirst (targets before) := by
  obtain ⟨m, params, route, after, -, -, -, hbefore⟩ := h
  rw [body_of_passes hbefore]
  exact request.isConsumed_iff _

/-- A validation that ends a request decides what comes of it. -/
theorem handle_of_stop (h : app.Reaches request before stage c) {response : Response}
    (hrun : runIn stage.run c = (.ok (.stop response), c')) :
    app.handle request = { response, notes := c'.notes } := by
  obtain ⟨m, params, route, after, hselect, hroute, hstages, hbefore⟩ := h
  have hstage : runIn (Stage.validation stage).run c = (.ok (.stop response), c') := hrun
  have hstop := runStages_stop hbefore hstage after
  rw [← hstages] at hstop
  rw [handle_of_route hselect hroute, Route.respond_of_stop hstop]
  rfl

theorem handle_of_error (h : app.Reaches request before stage c) {f : Fault}
    (hrun : runIn stage.run c = (.error f, c')) : app.handle request = .of (.error f, c') := by
  obtain ⟨m, params, route, after, hselect, hroute, hstages, hbefore⟩ := h
  have hstage : runIn (Stage.validation stage).run c = (.error f, c') := hrun
  have hrespond : runIn route.respond { request, params, settings := app.settings } = (.error f, c') := by
    refine runIn_bind_error ?_ _
    rw [hstages, runStages_append hbefore, runStages, runIn_bind_error hstage]
  rw [handle_of_route hselect hroute, hrespond]

/-- As long as the body is there, text that is no JSON is a violation at the root. -/
theorem validate_of_undecodable (h : app.Reaches request before stage c) (htarget : stage.target = .json)
    (hbody : request.Undecodable .json)
    (hthere : ¬ (request.formKind?.isSome = true ∧ Request.FormFirst (targets before))) :
    runIn stage.validate c = (.ok (.failure [⟨"", "Malformed JSON body"⟩]), { c with body := .kept }) := by
  have hstate : c.body ≠ .consumed := mt h.isConsumed_iff.mp hthere
  have hafter : c.request.bodyAfter c.body .json = .kept := by
    cases hc : c.body with
    | consumed => exact absurd hc hstate
    | _ => rfl
  rw [ValidationStage.runIn_validate, htarget, hafter, h.input.1,
    Request.read_of_undecodable_json hbody hstate]

/-- A malformed form ends the request before there is a result to validate. -/
theorem handle_of_malformedForm (h : app.Reaches request before stage c) (htarget : stage.target = .form)
    (hbody : request.Undecodable .form) :
    ∃ d, Multipart.readFields request.contentType request.body = .error d ∧
      app.handle request = { response := .plain 400 d.message, notes := c.notes } := by
  obtain ⟨d, hfields, hread⟩ := Request.exists_read_of_undecodable_form hbody
  have hrun : runIn stage.run c =
      (.error (.http 400 d.message), { c with body := c.request.bodyAfter c.body .form }) := by
    refine runIn_bind_error ?_ _
    rw [ValidationStage.runIn_validate, htarget, h.input.1, (hread _ _).1]
  exact ⟨d, hfields, h.handle_of_error hrun⟩

end Application.Reaches

/-! ### What a hook makes of a refusal -/

/-- The response to input that fails, unless the hook has one of its own. What is no reply is a fault. -/
def HookReply.responseOr (refusal : Response) : HookReply → Except Fault Response
  | .proceed => .ok refusal
  | .terminate response => .ok response
  | .other typeName => .error (.hookResult typeName)

namespace ValidationStage

variable {stage : ValidationStage} {c c' : Context} {errors : List ErrorRecord} {refusal : Response}

/-- A validation that fails sends its refusal. -/
theorem run_of_failure (hvalidate : runIn stage.validate c = (.ok (.failure errors), c'))
    (hrefusal : Response.json (.code (stage.statusFor c'.settings)) (Outcome.failurePayload errors) = .ok refusal)
    (hhook : stage.hook = none) : runIn stage.run c = (.ok (.stop refusal), c') := by
  unfold run
  rw [runIn_bind_ok hvalidate, runIn_bind_ok (runIn_consult_none hhook _ _)]
  dsimp only
  rw [runIn_settle_failure, hrefusal]
  rfl

/-- If it has a hook, the hook is called once with the failure, and its reply decides. -/
theorem run_of_failure_hook (hvalidate : runIn stage.validate c = (.ok (.failure errors), c'))
    (hrefusal : Response.json (.code (stage.statusFor c'.settings)) (Outcome.failurePayload errors) = .ok refusal)
    {hook : Hook} (hhook : stage.hook = some hook) :
    runIn stage.run c = ((((hook (.failure errors) c').result).bind (HookReply.responseOr refusal)).map .stop,
      { c' with notes := c'.notes ++ (hook (.failure errors) c').notes }) := by
  unfold run
  rw [runIn_bind_ok hvalidate, runIn_bind, runIn_consult_some hhook]
  cases hr : (hook (.failure errors) c').result with
  | error f => rfl
  | ok reply =>
      cases reply with
      | proceed =>
          dsimp only
          rw [runIn_settle_failure, hrefusal]
          rfl
      | terminate response => rfl
      | other typeName => rfl

end ValidationStage

/-- The response to a body that is no JSON text. -/
def malformedJson (status : Int) : Response :=
  ⟨.code status, some Response.jsonType,
    "\x7b\"success\":false,\"errors\":[\x7b\"path\":\"\",\"message\":\"Malformed JSON body\"\x7d]\x7d"⟩

theorem json_malformedJson (status : Int) :
    Response.json (.code status) (Outcome.failurePayload [⟨"", "Malformed JSON body"⟩]) =
      .ok (malformedJson status) := by
  with_unfolding_all rfl

namespace Application

variable {app : Application} {request : Request} {before : List Stage} {stage : ValidationStage} {c : Context}

/-- **A body that is no JSON text is a failure of the validation that a request reaches.** As long as the body has not
been taken as a form before, the validation fails with one record at the root; the response lists it with the
status of the validation, unless the hook, which is called with the failure, decides otherwise. If the body has been
taken as a form, there is nothing left to decode, which is an error of the server. A form that is malformed ends the
request with status 400 and a text, without any hook. -/
theorem handle_undecodable (h : app.Reaches request before stage c) (hbody : request.Undecodable stage.target) :
    (stage.target = .json → ¬ (request.formKind?.isSome = true ∧ Request.FormFirst (targets before)) →
      let failure := Outcome.failure [⟨"", "Malformed JSON body"⟩]
      let refusal := malformedJson (stage.statusFor app.settings)
      let c' := { c with body := .kept }
      runIn stage.validate c = (.ok failure, c') ∧
        (stage.hook = none → app.handle request = { response := refusal, notes := c.notes }) ∧
        ∀ hook, stage.hook = some hook → app.handle request =
          .of ((hook failure c').result.bind (HookReply.responseOr refusal),
            { c' with notes := c.notes ++ (hook failure c').notes })) ∧
    (stage.target = .json → request.formKind?.isSome = true ∧ Request.FormFirst (targets before) →
      app.handle request =
        { response := .plain 500 "Internal Server Error", fault := some .bodyConsumed, notes := c.notes }) ∧
    (stage.target = .form → ∃ d, Multipart.readFields request.contentType request.body = .error d ∧
      app.handle request = { response := .plain 400 d.message, notes := c.notes }) := by
  refine ⟨fun htarget hthere => ?_, fun htarget hgone => ?_, fun htarget => ?_⟩
  · have hvalidate := h.validate_of_undecodable htarget (htarget ▸ hbody) hthere
    have hrefusal : Response.json (.code (stage.statusFor c.settings))
        (Outcome.failurePayload [⟨"", "Malformed JSON body"⟩]) =
        .ok (malformedJson (stage.statusFor app.settings)) := by
      rw [h.input.2]
      exact json_malformedJson _
    refine ⟨hvalidate, fun hhook => ?_, fun hook hhook => ?_⟩
    · have hexchange := h.handle_of_stop (ValidationStage.run_of_failure hvalidate hrefusal hhook)
      exact hexchange
    · have hrun := ValidationStage.run_of_failure_hook hvalidate hrefusal hhook
      generalize (hook (.failure [⟨"", "Malformed JSON body"⟩]) { c with body := .kept }).result.bind
        (HookReply.responseOr _) = reply at hrun ⊢
      cases reply with
      | error f => exact h.handle_of_error hrun
      | ok response => exact h.handle_of_stop hrun
  · exact h.handle_of_error (ValidationStage.run_of_consumed htarget (h.isConsumed_iff.mpr hgone))
  · exact h.handle_of_malformedForm htarget (htarget ▸ hbody)

/-- A validation that takes any object, and whose hook notes that it has been called. -/
def notingStage (t : Target) : ValidationStage where
  target := t
  pipeline := ⟨.object {} {} [], .object ⟨[], false⟩ []⟩
  hook := some fun _ _ => { notes := [.str "called"], result := .ok .proceed }

def notingRoute (t : Target) : Route where
  method := "POST"
  path := "/"
  stages := [.validation (notingStage t)]
  handler := .function "handler" fun _ => { result := .ok (.value (.str "done")) }
  name := none
  validators := [⟨"POST", "/", notingStage t⟩]
  description := none

def notingApplication (t : Target) : Application where
  settings := {}
  registry := { routes := [notingRoute t], frozen := true }
  mounted := [⟨"/", [.literal '/'], "handler", ["POST"], .route (notingRoute t)⟩]

/-- A text that is no JSON: the hook is called, and the response lists the violation. -/
theorem handle_undecodable_brace :
    (notingApplication .json).handle { method := "POST", body := [123] } =
      { response := malformedJson 400, notes := [.str "called"] } := by
  have hreaches : (notingApplication .json).Reaches { method := "POST", body := [123] } [] (notingStage .json)
      { request := { method := "POST", body := [123] } } :=
    ⟨_, [], notingRoute .json, [], rfl, rfl, rfl, .nil _⟩
  have hbody : Request.Undecodable { method := "POST", body := [123] } .json := ⟨by decide, by decide +kernel⟩
  have hthere : ¬ ((Request.formKind? { method := "POST", body := [123] }).isSome = true ∧
      Request.FormFirst (targets [])) := fun h => Bool.false_ne_true h.1
  exact ((handle_undecodable hreaches hbody).1 rfl hthere).2.2 _ rfl

/-- A form without a boundary: the hook is not called, and nothing is listed. -/
theorem handle_missingBoundary :
    (notingApplication .form).handle
        { method := "POST", headers := [("content-type", "multipart/form-data")], body := [120] } =
      { response := .plain 400 "Missing boundary in multipart.", notes := [] } := by
  with_unfolding_all rfl

end Application

end Routing

end ApiContract
