import ApiContract.Normalization.Pipeline
import ApiContract.Routing.Context

/-!
# Stages

A route runs its stages in order before its handler. Each stage lets the request pass or ends it with
a response. A validation stage keeps the value that its pipeline makes of a target, or answers with the
list of violations; its hook sees the result first and may end the request instead. A describing stage
only carries documentation.
-/

namespace ApiContract.Routing

/-- What becomes of a request after a stage. -/
inductive Passage where
  | proceed
  | stop (response : Http.Response)

/-- What a hook returns. -/
inductive HookReply where
  | proceed
  | terminate (response : Http.Response)
  /-- Something that is no reply, by the name of its type. -/
  | other (typeName : String)

/-- A hook is called with the result of a validation. -/
abbrev Hook := Outcome → Context → Action HookReply

/-- Validation of one target. -/
structure ValidationStage where
  target : Target
  pipeline : Pipeline
  hook : Option Hook := none
  /-- The status of responses to input that fails, if it is not that of the settings. -/
  failureStatus : Option Int := none

namespace ValidationStage

/-- A stage for a target and a well-formed schema. -/
def ofSchema (target : Target) (s : Schema) (hook : Option Hook) (failureStatus : Option Int) :
    Except Fault ValidationStage := do
  return { target, pipeline := ← Pipeline.ofSchema s, hook, failureStatus }

/-- A stage that a route can rely on: its status is one of client errors, and every target but the
JSON body is governed by an object schema. -/
def checked (target : Value) (s : Schema) (hook : Option Hook) (failureStatus : Option Int) :
    Except Fault ValidationStage := do
  match failureStatus with
  | some n =>
    unless 400 ≤ n && n ≤ 499 do throw (.refused (.failureStatus (← intText n)))
  | none => pure ()
  let t ← Target.ofValue target
  if t != .json && s.object?.isNone then throw (.schema (.targetNeedsObject t) "")
  ofSchema t s hook failureStatus

/-- The status of the response to input that fails. A status of zero counts as none. -/
def statusFor (stage : ValidationStage) (settings : Settings) : Int :=
  match stage.failureStatus with
  | some 0 | none => settings.failureStatus
  | some n => n

/-- Reads and validates the target. A body that cannot be decoded is a violation at the root. -/
def validate (stage : ValidationStage) : Handling Outcome := do
  let read : Except Fault Value ← ExceptT.lift (readTarget stage.target).run
  match read with
  | .ok raw => stage.pipeline.apply stage.target raw
  | .error (.malformedBody reason) => return .failure [⟨"", reason⟩]
  | .error f => throw f

/-- Lets the hook see a result; without a hook the request proceeds. -/
def consult (stage : ValidationStage) (outcome : Outcome) : Handling Passage :=
  match stage.hook with
  | none => return .proceed
  | some hook => do
    match ← call (hook outcome) with
    | .proceed => return .proceed
    | .terminate response => return .stop response
    | .other typeName => throw (.hookResult typeName)

/-- Keeps a valid value, or answers with the violations. -/
def settle (stage : ValidationStage) : Outcome → Handling Passage
  | .success data => do
    modify (·.setValid stage.target data)
    return .proceed
  | .failure errors => do
    let status := stage.statusFor (← get).settings
    return .stop (← Http.Response.json (.code status) (Outcome.failurePayload errors))

/-- Runs the stage. -/
def run (stage : ValidationStage) : Handling Passage := do
  let outcome ← stage.validate
  match ← stage.consult outcome with
  | .stop response => return .stop response
  | .proceed => stage.settle outcome

end ValidationStage

/-- A member of the documentation of a media type. -/
inductive MediaMember where
  | data (v : Value)
  /-- The schema of the content, or what stands in its place. -/
  | schema (s : Schema)

/-- A member of the documentation of a response. -/
inductive ResponseMember where
  | data (v : Value)
  /-- The content under its media types. -/
  | content (types : List (Value × List (Value × MediaMember)))

/-- The documentation of a response. -/
abbrev ResponseDescription := List (Value × ResponseMember)

/-- The documentation of a route. -/
structure RouteDescription where
  summary : Option String := none
  description : Option String := none
  tags : List Value := []
  operationId : Option String := none
  /-- The responses under their statuses. -/
  responses : List (Value × ResponseDescription) := []
  deprecated : Bool := false
  /-- Whether the route is left out of the documentation. -/
  hide : Bool := false

namespace RouteDescription

/-- The schemas of the content of a response. -/
def responseSchemas (r : ResponseDescription) : List Schema :=
  r.flatMap fun
    | (_, .data _) => []
    | (_, .content types) => types.flatMap fun t => t.2.filterMap fun
      | (_, .data _) => none
      | (_, .schema s) => some s

/-- A description whose schemas are well formed. What is no schema is left for the documentation to
judge. -/
def checked (d : RouteDescription) : Except Fault RouteDescription := do
  for s in d.responses.flatMap fun r => responseSchemas r.2 do
    if s.isNode then let _ ← s.compile
  return d

end RouteDescription

/-- A stage of a route. -/
inductive Stage where
  | validation (stage : ValidationStage)
  | description (d : RouteDescription)
  /-- A stage of the application's own. -/
  | custom (run : Context → Action Passage)
  /-- Something that cannot be called. -/
  | value (v : Value)

/-- Runs a stage. -/
def Stage.run : Stage → Handling Passage
  | .validation stage => stage.run
  | .description _ => return .proceed
  | .custom run => call run
  | .value _ => throw .unsupported

/-- Runs stages in order until one ends the request. -/
def runStages : List Stage → Handling Passage
  | [] => return .proceed
  | stage :: rest => do
    match ← stage.run with
    | .stop response => return .stop response
    | .proceed => runStages rest

end ApiContract.Routing
