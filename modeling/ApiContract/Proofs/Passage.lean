import ApiContract.Proofs.Acceptance
import ApiContract.Proofs.Handling
import ApiContract.Proofs.Registration

/-!
# What a route guarantees to its handler

A request reaches the handler of a route through all of its stages (`Passes`), and then every validation
of the route has left the value it has produced, and nothing else has been left
(`Route.guarded_of_addRoute`).

A handler is called if it has a part in what happens (`Route.CallsHandler`): the code of the application
is given, so that a call can only be seen in what depends on it.
-/

namespace ApiContract.Routing

/-- The stages let a request pass, one after the other, from the first context to the last. -/
inductive Passes : List Stage → Context → Context → Prop where
  | nil (c : Context) : Passes [] c c
  | cons {stage : Stage} {rest : List Stage} {c c₁ c' : Context}
      (head : runIn stage.run c = (.ok .proceed, c₁)) (tail : Passes rest c₁ c') :
      Passes (stage :: rest) c c'

/-! ### Rows of stages -/

theorem passes_append_iff {before after : List Stage} {c c' : Context} :
    Passes (before ++ after) c c' ↔ ∃ c₁, Passes before c c₁ ∧ Passes after c₁ c' := by
  induction before generalizing c with
  | nil =>
      constructor
      · intro h
        exact ⟨c, .nil c, h⟩
      · rintro ⟨_, ⟨⟩, h⟩
        exact h
  | cons stage before ih =>
      constructor
      · rintro (_ | ⟨head, tail⟩)
        obtain ⟨c₁, hbefore, hafter⟩ := ih.mp tail
        exact ⟨c₁, .cons head hbefore, hafter⟩
      · rintro ⟨c₁, _ | ⟨head, tail⟩, hafter⟩
        exact .cons head (ih.mpr ⟨c₁, tail, hafter⟩)

/-- Once the first stages have let the request pass, the others go on in the context they leave. -/
theorem runStages_append {before : List Stage} {c c₁ : Context} (h : Passes before c c₁)
    (after : List Stage) : runIn (runStages (before ++ after)) c = runIn (runStages after) c₁ := by
  induction h with
  | nil c => rfl
  | cons head tail ih =>
      rw [List.cons_append, runStages, runIn_bind_ok head]
      exact ih

/-- A row lets a request pass if each of its stages does. -/
theorem runStages_proceed_iff {stages : List Stage} {c c' : Context} :
    runIn (runStages stages) c = (.ok .proceed, c') ↔ Passes stages c c' := by
  constructor
  · intro h
    induction stages generalizing c with
    | nil =>
        obtain ⟨-, rfl⟩ := Prod.mk.inj h
        exact .nil _
    | cons stage rest ih =>
        obtain ⟨passage, c₁, head, h⟩ := runIn_bind_eq_ok h
        cases passage with
        | stop response => cases h
        | proceed => exact .cons head (ih h)
  · intro h
    have hrun := runStages_append h []
    rwa [List.append_nil] at hrun

/-- The first stage that ends a request decides the response. -/
theorem runStages_stop {before : List Stage} {stage : Stage} {c c₁ c₂ : Context}
    {response : Http.Response} (hbefore : Passes before c c₁)
    (hstop : runIn stage.run c₁ = (.ok (.stop response), c₂)) (later : List Stage) :
    runIn (runStages (before ++ stage :: later)) c = (.ok (.stop response), c₂) := by
  rw [runStages_append hbefore, runStages, runIn_bind_ok hstop]
  rfl

/-! ### What stages leave in the context -/

/-- Stages never change what has arrived with a request. -/
def Context.SameInput (c c' : Context) : Prop :=
  c'.request = c.request ∧ c'.params = c.params ∧ c'.settings = c.settings

theorem sameInput_run {stage : Stage} {c c' : Context}
    (h : runIn stage.run c = (.ok .proceed, c')) : c.SameInput c' := by
  cases stage with
  | validation stage =>
      obtain ⟨outcome, c₁, hvalidate, h⟩ := runIn_bind_eq_ok h
      obtain ⟨passage, c₂, hconsult, h⟩ := runIn_bind_eq_ok h
      rw [ValidationStage.runIn_validate] at hvalidate
      obtain ⟨-, rfl⟩ := Prod.mk.inj hvalidate
      cases passage with
      | stop response => cases h
      | proceed =>
          obtain ⟨data, rfl, rfl⟩ := ValidationStage.settle_proceed h
          cases hhook : stage.hook with
          | none =>
              rw [ValidationStage.runIn_consult_none hhook] at hconsult
              obtain ⟨-, rfl⟩ := Prod.mk.inj hconsult
              exact ⟨rfl, rfl, rfl⟩
          | some hook =>
              rw [ValidationStage.runIn_consult_some hhook] at hconsult
              obtain ⟨-, rfl⟩ := Prod.mk.inj hconsult
              exact ⟨rfl, rfl, rfl⟩
  | description d =>
      obtain ⟨-, rfl⟩ := Prod.mk.inj h
      exact ⟨rfl, rfl, rfl⟩
  | custom run =>
      rw [Stage.run, runIn_call] at h
      obtain ⟨-, rfl⟩ := Prod.mk.inj h
      exact ⟨rfl, rfl, rfl⟩
  | value v => cases h

theorem sameInput_of_passes {stages : List Stage} {c c' : Context} (h : Passes stages c c') :
    c.SameInput c' := by
  induction h with
  | nil c => exact ⟨rfl, rfl, rfl⟩
  | cons head tail ih =>
      obtain ⟨hrequest, hparams, hsettings⟩ := sameInput_run head
      obtain ⟨hrequest', hparams', hsettings'⟩ := ih
      exact ⟨hrequest'.trans hrequest, hparams'.trans hparams, hsettings'.trans hsettings⟩

/-- A stage that is no validation leaves no value. -/
theorem valid_run {stage : Stage} {c c' : Context} (htarget : stage.target? = none)
    (h : runIn stage.run c = (.ok .proceed, c')) : c'.valid = c.valid := by
  cases stage with
  | validation stage => cases htarget
  | description d =>
      obtain ⟨-, rfl⟩ := Prod.mk.inj h
      rfl
  | custom run =>
      rw [Stage.run, runIn_call] at h
      obtain ⟨-, rfl⟩ := Prod.mk.inj h
      rfl
  | value v => cases h

/-- The value of a target changes only in validations of this target. -/
theorem validValue_of_passes {stages : List Stage} {c c' : Context} {t : Target}
    (h : Passes stages c c') (ht : t ∉ targets stages) : c'.validValue t = c.validValue t := by
  induction h with
  | nil c => rfl
  | cons head tail ih =>
      rename_i stage rest c c₁ c'
      have hrest : t ∉ targets rest := by
        intro hmem
        obtain ⟨s, hs, rfl⟩ := mem_targets.mp hmem
        exact ht (mem_targets.mpr ⟨s, List.mem_cons_of_mem _ hs, rfl⟩)
      rw [ih hrest]
      cases hstage : stage.target? with
      | none => rw [Context.validValue, valid_run hstage head, Context.validValue]
      | some t' =>
          cases stage with
          | validation stage =>
              -- the new value is for another target, and is passed over
              obtain ⟨data, c₂, -, hvalid⟩ := ValidationStage.run_proceed head
              have hne : (t == stage.target) = false := by
                rw [beq_eq_false_iff_ne]
                rintro rfl
                exact ht List.mem_cons_self
              rw [Context.validValue, hvalid, List.lookup_cons, hne, Context.validValue]
          | _ => cases hstage

/-! ### The end of a route -/

/-- The response that a handler's reply stands for. -/
def HandlerReply.toResponse : HandlerReply → Except Fault Http.Response
  | .response r => .ok r
  | .value v => Http.Response.ofValue v

namespace Route

/-- The route with another handler. -/
def withHandler (route : Route) (run : Context → Action HandlerReply) : Route :=
  { route with handler := .function "" run }

/-- Whether the route calls its handler for a request: then the handler has a part in what happens. -/
def CallsHandler (route : Route) (c : Context) : Prop :=
  ∃ f g, runIn (route.withHandler f).respond c ≠ runIn (route.withHandler g).respond c

/-- A request that passes is answered by the handler, which is called in the context that the stages
leave. -/
theorem respond_of_passes (route : Route) {c c' : Context} (h : Passes route.stages c c')
    {functionName : String} {run : Context → Action HandlerReply}
    (hhandler : route.handler = .function functionName run) :
    runIn route.respond c =
      ((run c').result.bind HandlerReply.toResponse,
        { c' with notes := c'.notes ++ (run c').notes }) := by
  unfold respond
  rw [runIn_bind_ok (runStages_proceed_iff.mpr h), hhandler]
  dsimp only
  rw [runIn_bind, runIn_call]
  cases hr : (run c').result with
  | error f => rfl
  | ok reply =>
      cases reply with
      | response r => rfl
      | value v => exact runIn_lift _ _

/-- A stage that ends the request keeps it from the handler. -/
theorem respond_of_stop {route : Route} {c c' : Context} {response : Http.Response}
    (h : runIn (runStages route.stages) c = (.ok (.stop response), c')) :
    runIn route.respond c = (.ok response, c') := by
  unfold respond
  rw [runIn_bind_ok h]
  rfl

/-- The handler is called exactly if all stages let the request pass. -/
theorem callsHandler_iff {route : Route} {c : Context} :
    route.CallsHandler c ↔ ∃ c', Passes route.stages c c' := by
  constructor
  · rintro ⟨f, g, hne⟩
    rcases hrun : runIn (runStages route.stages) c with ⟨fault | passage, c'⟩
    · have hrespond (run : Context → Action HandlerReply) :
          runIn (route.withHandler run).respond c = (.error fault, c') :=
        runIn_bind_error hrun _
      exact absurd ((hrespond f).trans (hrespond g).symm) hne
    · cases passage with
      | stop response =>
          have hrespond (run : Context → Action HandlerReply) :
              runIn (route.withHandler run).respond c = (.ok response, c') :=
            respond_of_stop hrun
          exact absurd ((hrespond f).trans (hrespond g).symm) hne
      | proceed => exact ⟨c', runStages_proceed_iff.mp hrun⟩
  · rintro ⟨c', h⟩
    -- one of the two handlers takes a note
    refine ⟨fun _ => ⟨[], .ok (.value .null)⟩, fun _ => ⟨[.null], .ok (.value .null)⟩, ?_⟩
    intro heq
    have hrespond (run : Context → Action HandlerReply) :
        runIn (route.withHandler run).respond c =
          ((run c').result.bind HandlerReply.toResponse,
            { c' with notes := c'.notes ++ (run c').notes }) :=
      respond_of_passes (route.withHandler run) h rfl
    rw [hrespond, hrespond] at heq
    have hnotes := congrArg (fun r => r.2.notes) heq
    simp at hnotes

/-- What a route guarantees for a request that arrives in a context. -/
structure Guarded (route : Route) (c : Context) : Prop where
  /-- The handler is called exactly if every stage has run, in order, and let the request pass. -/
  called_iff : route.CallsHandler c ↔ ∃ c', Passes route.stages c c'
  /-- Then it is called once, in the context that the stages leave, and its reply is the response. -/
  reply : ∀ {c'}, Passes route.stages c c' → ∃ functionName run,
    route.handler = .function functionName run ∧
      runIn route.respond c =
        ((run c').result.bind HandlerReply.toResponse,
          { c' with notes := c'.notes ++ (run c').notes })
  /-- Every validation has then left for its target what its pipeline has made of this part of the
  request, and its validator accepts that value. -/
  validated : ∀ {c' before stage after}, Passes route.stages c c' →
    route.stages = before ++ .validation stage :: after →
    ∃ c₁ raw data, Passes before c c₁ ∧
      c.request.read c.params c₁.body true stage.target = .ok raw ∧
      stage.pipeline.apply stage.target raw = .ok (.success data) ∧
      stage.pipeline.validator.check data = .ok true ∧
      c'.validValue stage.target = .ok data
  /-- There is no value for any other target. -/
  unvalidated : ∀ {c' t}, Passes route.stages c c' → t ∉ targets route.stages →
    c'.validValue t = .error (.notValidated t)
  /-- Whatever a hook does, it does not let input that has failed reach the handler. -/
  failed : ∀ {before stage after c₁ errors c₂}, route.stages = before ++ .validation stage :: after →
    Passes before c c₁ → runIn stage.validate c₁ = (.ok (.failure errors), c₂) →
    ∀ hook, ¬ CallsHandler
      { route with stages := before ++ .validation { stage with hook } :: after } c
  /-- A validation that has a result calls its hook once, with this result. -/
  consulted : ∀ {before stage after c₁ outcome c₂ hook},
    route.stages = before ++ .validation stage :: after → Passes before c c₁ →
    runIn stage.validate c₁ = (.ok outcome, c₂) → stage.hook = some hook →
    (runIn stage.run c₁).2.notes = c₁.notes ++ (hook outcome c₂).notes
  /-- The first stage that ends the request decides the response. Neither the stages behind it nor the
  handler have a part in it. -/
  stopped : ∀ {before stage after c₁ response c₂}, route.stages = before ++ stage :: after →
    Passes before c c₁ → runIn stage.run c₁ = (.ok (.stop response), c₂) →
    ∀ later handler,
      runIn (respond { route with stages := before ++ stage :: later, handler }) c =
        (.ok response, c₂)

/-- What a validation on the way has left is there when the handler is called. -/
theorem validated_of_passes {before after : List Stage} {stage : ValidationStage} {c c' : Context}
    (hnodup : (targets (before ++ .validation stage :: after)).Nodup)
    (h : Passes (before ++ .validation stage :: after) c c') :
    ∃ c₁ raw data, Passes before c c₁ ∧
      c.request.read c.params c₁.body true stage.target = .ok raw ∧
      stage.pipeline.apply stage.target raw = .ok (.success data) ∧
      c'.validValue stage.target = .ok data := by
  obtain ⟨c₁, hbefore, _ | ⟨head, tail⟩⟩ := passes_append_iff.mp h
  rename_i c₃
  obtain ⟨data, c₂, hvalidate, hvalid⟩ := ValidationStage.run_proceed head
  obtain ⟨raw, hread, happly⟩ := ValidationStage.runIn_validate_success hvalidate
  obtain ⟨hrequest, hparams, -⟩ := sameInput_of_passes hbefore
  rw [hrequest, hparams] at hread
  refine ⟨c₁, raw, data, hbefore, hread, happly, ?_⟩
  -- no later stage validates the same target, so the value is still there at the end
  have hlater : stage.target ∉ targets after := by
    rw [targets, List.filterMap_append] at hnodup
    exact (List.nodup_cons.mp (List.nodup_append.mp hnodup).2.1).1
  rw [validValue_of_passes tail hlater, Context.validValue, hvalid, List.lookup_cons, beq_self_eq_true]

/-- Input that has failed does not pass, whatever the hook does. -/
theorem not_passes_of_failure {before after : List Stage} {stage : ValidationStage}
    {c c₁ c₂ : Context} {errors : List ErrorRecord} (hbefore : Passes before c c₁)
    (hvalidate : runIn stage.validate c₁ = (.ok (.failure errors), c₂)) (hook : Option Hook)
    (c' : Context) : ¬ Passes (before ++ .validation { stage with hook } :: after) c c' := by
  intro h
  have hrun := runStages_proceed_iff.mpr h
  rw [runStages_append hbefore] at hrun
  -- to pass, the stage would have to succeed
  obtain ⟨head, -⟩ | ⟨head, tail⟩ := runStages_proceed_iff.mp hrun
  obtain ⟨data, c₃, hsuccess, -⟩ := ValidationStage.run_proceed head
  cases hvalidate.symm.trans hsuccess

/-- **A registered route guards its handler.** -/
theorem guarded_of_addRoute {registry registry' : Registry} {method path : String}
    {stages : List Stage} {handler : Handler} {name : Option String} {handle : RouteHandle}
    {route : Route} {c : Context}
    (h : registry.addRoute method path stages handler name = .ok (registry', handle))
    (hget : registry'.get handle = .ok route) (hc : c.valid = []) :
    route.stages = stages ∧ route.Guarded c := by
  obtain ⟨rfl, ⟨functionName, run, hhandler⟩, hnodup⟩ := get_of_addRoute h hget
  refine ⟨rfl, ?_⟩
  constructor
  case called_iff => exact callsHandler_iff
  case reply =>
    intro c' hpasses
    exact ⟨functionName, run, hhandler, respond_of_passes route hpasses hhandler⟩
  case validated =>
    intro c' before stage after hpasses hstages
    rw [hstages] at hnodup hpasses
    obtain ⟨c₁, raw, data, hbefore, hread, happly, hvalue⟩ := validated_of_passes hnodup hpasses
    exact ⟨c₁, raw, data, hbefore, hread, happly, Pipeline.check_of_apply happly, hvalue⟩
  case unvalidated =>
    intro c' t hpasses ht
    rw [validValue_of_passes hpasses ht, Context.validValue, hc]
    rfl
  case failed =>
    intro before stage after c₁ errors c₂ _ hbefore hvalidate hook hcalls
    obtain ⟨c', hpasses⟩ := callsHandler_iff.mp hcalls
    exact not_passes_of_failure hbefore hvalidate hook c' hpasses
  case consulted =>
    intro before stage after c₁ outcome c₂ hook _ _ hvalidate hhook
    rw [ValidationStage.notes_run hhook hvalidate]
    rw [ValidationStage.runIn_validate] at hvalidate
    obtain ⟨-, rfl⟩ := Prod.mk.inj hvalidate
    rfl
  case stopped =>
    intro before stage after c₁ response c₂ _ hbefore hstop later handler
    exact respond_of_stop (runStages_stop hbefore hstop later)

/-- Stages that document an item, validate its number and let a request pass. The hook notes what it has
seen. -/
def showing : List Stage := [
  .description { summary := some "one item" },
  .validation {
    target := .param
    pipeline := ⟨.object {} {} [(.str "id", .integer {} {})],
      .object ⟨["id"], false⟩ [("id", .number ⟨true, none, none, none, none, none, none⟩)]⟩
    hook := some fun outcome _ => ⟨[.bool outcome.isSuccess], .ok .proceed⟩ },
  .custom fun _ => ⟨[], .ok .proceed⟩]

/-- A request for the seventh item. -/
def seventh : Context := { request := {}, params := [(.str "id", .str "7")] }

/-- The handler of the item finds its number validated. -/
def showItem : Handler := .function "show" fun c => ⟨[], (c.validValue .param).map .value⟩

/-- The request for the seventh item reaches the handler. -/
theorem guarded_showing :
    ∃ registry' handle route,
      ({} : Registry).addRoute "get" "/items/{id}" showing showItem none = .ok (registry', handle) ∧
      registry'.get handle = .ok route ∧ route.Guarded seventh ∧ route.CallsHandler seventh := by
  have hadd : ∃ registry' handle route,
      ({} : Registry).addRoute "get" "/items/{id}" showing showItem none = .ok (registry', handle) ∧
      registry'.get handle = .ok route := ⟨_, _, _, rfl, rfl⟩
  obtain ⟨registry', handle, route, hadd, hget⟩ := hadd
  obtain ⟨hstages, hguarded⟩ := guarded_of_addRoute hadd hget (c := seventh) rfl
  refine ⟨registry', handle, route, hadd, hget, hguarded, hguarded.called_iff.mpr ?_⟩
  rw [hstages]
  exact ⟨_, .cons rfl (.cons rfl (.cons rfl (.nil _)))⟩

end Route

end ApiContract.Routing
