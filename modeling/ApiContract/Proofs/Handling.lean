import ApiContract.Proofs.ListLemmas
import ApiContract.Routing.Registry

/-!
# Running a step in a context

A step of handling a request takes a context to a result and the context it leaves (`runIn`). For each
step there is one lemma that says what it does to the context: reading a target changes the state of the
body alone, code of the application adds its notes alone, and only a validation that succeeds adds a
value to those validated so far.
-/

namespace ApiContract.Routing

variable {α β : Type}

/-- The result of a step in a context, and the context it leaves. -/
def runIn (step : Handling α) (c : Context) : Except Fault α × Context := (step.run.run c).run

/-- A step that goes on after the first one has given a result. -/
theorem runIn_bind (step : Handling α) (next : α → Handling β) (c : Context) :
    runIn (step >>= next) c =
      match runIn step c with
      | (.ok a, c') => runIn (next a) c'
      | (.error f, c') => (.error f, c') := by
  show (((step >>= next).run).run c).run = _
  unfold runIn
  simp only [ExceptT.run_bind, StateT.run_bind, Id.run_bind]
  rcases h : (step.run.run c).run with ⟨r, c'⟩
  cases r <;> rfl

theorem runIn_bind_ok {step : Handling α} {c c' : Context} {a : α} (h : runIn step c = (.ok a, c'))
    (next : α → Handling β) : runIn (step >>= next) c = runIn (next a) c' := by
  rw [runIn_bind, h]

theorem runIn_bind_error {step : Handling α} {c c' : Context} {f : Fault}
    (h : runIn step c = (.error f, c')) (next : α → Handling β) :
    runIn (step >>= next) c = (.error f, c') := by
  rw [runIn_bind, h]

/-- A row of steps has a result only if each of them has. -/
theorem runIn_bind_eq_ok {step : Handling α} {next : α → Handling β} {c c' : Context} {b : β}
    (h : runIn (step >>= next) c = (.ok b, c')) :
    ∃ a c₁, runIn step c = (.ok a, c₁) ∧ runIn (next a) c₁ = (.ok b, c') := by
  rw [runIn_bind] at h
  rcases hstep : runIn step c with ⟨r, c₁⟩
  rw [hstep] at h
  cases r with
  | error f => cases h
  | ok a => exact ⟨a, c₁, rfl, h⟩

@[simp] theorem runIn_get (c : Context) : runIn get c = (.ok c, c) := rfl

@[simp] theorem runIn_modify (f : Context → Context) (c : Context) :
    runIn (modify f) c = (.ok (), f c) := rfl

/-- A result that is already there leaves the context as it is. -/
@[simp] theorem runIn_lift (r : Except Fault α) (c : Context) :
    runIn (liftM r : Handling α) c = (r, c) := by
  cases r <;> rfl

/-- Code of the application gives its result and adds its notes. -/
@[simp] theorem runIn_call (run : Context → Action α) (c : Context) :
    runIn (call run) c = ((run c).result, { c with notes := c.notes ++ (run c).notes }) := by
  unfold call
  rw [runIn_bind_ok (runIn_get c), runIn_bind_ok (runIn_modify _ c)]
  exact runIn_lift _ _

/-- Reading a target changes the state of the body alone. -/
@[simp] theorem runIn_readTarget (t : Target) (c : Context) :
    runIn (readTarget t) c =
      (c.request.read c.params c.body true t, { c with body := c.request.bodyAfter c.body t }) := by
  unfold readTarget
  rw [runIn_bind_ok (runIn_get c)]
  exact runIn_lift _ _

/-- A step whose fault is looked at instead of passed on. -/
@[simp] theorem runIn_attempt (step : Handling α) (c : Context) :
    runIn (ExceptT.lift step.run : Handling (Except Fault α)) c =
      (.ok (runIn step c).1, (runIn step c).2) := rfl

namespace ValidationStage

/-- Validating changes the state of the body alone. Its result is that of the pipeline on the raw value;
a body that cannot be decoded gives one record at the root. -/
theorem runIn_validate (stage : ValidationStage) (c : Context) :
    runIn stage.validate c =
      ((match c.request.read c.params c.body true stage.target with
        | .ok raw => stage.pipeline.apply stage.target raw
        | .error (.malformedBody reason) => .ok (.failure [⟨"", reason⟩])
        | .error f => .error f),
      { c with body := c.request.bodyAfter c.body stage.target }) := by
  unfold validate
  rw [runIn_bind_ok (runIn_attempt _ c), runIn_readTarget]
  rcases c.request.read c.params c.body true stage.target with f | raw
  · cases f <;> rfl
  · exact runIn_lift _ _

/-- A success is what the pipeline has made of the raw value that was read. -/
theorem runIn_validate_success {stage : ValidationStage} {c c' : Context} {data : Value}
    (h : runIn stage.validate c = (.ok (.success data), c')) :
    ∃ raw, c.request.read c.params c.body true stage.target = .ok raw ∧
      stage.pipeline.apply stage.target raw = .ok (.success data) := by
  rw [runIn_validate] at h
  have hresult := congrArg Prod.fst h
  dsimp only at hresult
  split at hresult
  · rename_i raw hraw
    exact ⟨raw, hraw, hresult⟩
  · cases hresult
  · cases hresult

theorem runIn_consult_none {stage : ValidationStage} (h : stage.hook = none) (outcome : Outcome)
    (c : Context) : runIn (stage.consult outcome) c = (.ok .proceed, c) := by
  unfold consult
  rw [h]
  rfl

/-- The hook is called once, with the result. What it replies decides how the request goes on; what is no
reply is a fault. -/
theorem runIn_consult_some {stage : ValidationStage} {hook : Hook} (h : stage.hook = some hook)
    (outcome : Outcome) (c : Context) :
    runIn (stage.consult outcome) c =
      ((match (hook outcome c).result with
        | .ok .proceed => .ok .proceed
        | .ok (.terminate response) => .ok (.stop response)
        | .ok (.other typeName) => .error (.hookResult typeName)
        | .error f => .error f),
      { c with notes := c.notes ++ (hook outcome c).notes }) := by
  unfold consult
  rw [h]
  dsimp only
  rw [runIn_bind, runIn_call]
  cases hr : (hook outcome c).result with
  | error f => rfl
  | ok reply => cases reply <;> rfl

@[simp] theorem runIn_settle_success (stage : ValidationStage) (data : Value) (c : Context) :
    runIn (stage.settle (.success data)) c = (.ok .proceed, c.setValid stage.target data) := by
  unfold settle
  rw [runIn_bind_ok (runIn_modify _ c)]
  rfl

/-- Violations end the request with the payload that lists them. -/
@[simp] theorem runIn_settle_failure (stage : ValidationStage) (errors : List ErrorRecord)
    (c : Context) :
    runIn (stage.settle (.failure errors)) c =
      ((Http.Response.json (.code (stage.statusFor c.settings)) (Outcome.failurePayload errors)).map
        .stop, c) := by
  unfold settle
  rw [runIn_bind_ok (runIn_get c), runIn_bind, runIn_lift]
  cases Http.Response.json (.code (stage.statusFor c.settings)) (Outcome.failurePayload errors) <;> rfl

/-- A hook sees the result that its stage has obtained and leaves its notes once, whatever comes of
them. -/
theorem notes_run {stage : ValidationStage} {hook : Hook} {outcome : Outcome} {c c' : Context}
    (hhook : stage.hook = some hook) (h : runIn stage.validate c = (.ok outcome, c')) :
    (runIn stage.run c).2.notes = c'.notes ++ (hook outcome c').notes := by
  unfold run
  rw [runIn_bind_ok h, runIn_bind, runIn_consult_some hhook]
  -- the notes are taken before the reply is looked at, and settling takes none
  cases hr : (hook outcome c').result with
  | error f => rfl
  | ok reply =>
      cases reply with
      | proceed => cases outcome <;> simp [Context.setValid]
      | terminate response => rfl
      | other typeName => rfl

theorem valid_validate (stage : ValidationStage) (c : Context) :
    (runIn stage.validate c).2.valid = c.valid := by
  rw [runIn_validate]

theorem valid_consult (stage : ValidationStage) (outcome : Outcome) (c : Context) :
    (runIn (stage.consult outcome) c).2.valid = c.valid := by
  cases h : stage.hook with
  | none => rw [runIn_consult_none h]
  | some hook => rw [runIn_consult_some h]

/-- Only a success lets the request pass. -/
theorem settle_proceed {stage : ValidationStage} {outcome : Outcome} {c c' : Context}
    (h : runIn (stage.settle outcome) c = (.ok .proceed, c')) :
    ∃ data, outcome = .success data ∧ c' = c.setValid stage.target data := by
  cases outcome with
  | success data =>
      rw [runIn_settle_success] at h
      exact ⟨data, rfl, (Prod.mk.inj h).2.symm⟩
  | failure errors =>
      rw [runIn_settle_failure] at h
      obtain ⟨response, -, hstop⟩ := map_eq_ok_iff.mp (Prod.mk.inj h).1
      cases hstop

/-- A validation lets a request pass only if it has succeeded, whatever its hook replies. Then it adds
the validated value to the context. -/
theorem run_proceed {stage : ValidationStage} {c c' : Context}
    (h : runIn stage.run c = (.ok .proceed, c')) :
    ∃ data c₁, runIn stage.validate c = (.ok (.success data), c₁) ∧
      c'.valid = (stage.target, data) :: c.valid := by
  unfold run at h
  obtain ⟨outcome, c₁, hvalidate, h⟩ := runIn_bind_eq_ok h
  obtain ⟨passage, c₂, hconsult, h⟩ := runIn_bind_eq_ok h
  cases passage with
  | stop response => cases h
  | proceed =>
      -- a hook that lets the request pass leaves it to the outcome
      obtain ⟨data, rfl, rfl⟩ := settle_proceed h
      refine ⟨data, c₁, hvalidate, ?_⟩
      have h₁ := valid_validate stage c
      have h₂ := valid_consult stage (.success data) c₁
      rw [hvalidate] at h₁
      rw [hconsult] at h₂
      rw [Context.setValid, h₂, h₁]

end ValidationStage

end ApiContract.Routing
