import ApiContract.Documentation.Convert
import ApiContract.Routing.PathPattern
import ApiContract.Routing.Registry

/-!
# Operations

The documentation of one route. The properties that its validators declare for the path, the query, the
headers and the cookies are its parameters; the schemas for the JSON and the form body document the
body; every status with which input can be refused is a response.
-/

namespace ApiContract.Documentation

open Routing

/-- The schema of the responses to input that fails validation. -/
def validationErrorSchema : Schema :=
  let message : Schema := .string {} {}
  let path : Schema := .string { description := some "Dot-separated location of the value" } {}
  let record : Schema := .object { name := some "ValidationErrorRecord" } {}
    [(.str "path", path), (.str "message", message)]
  .object
    { name := some "ValidationErrorResponse"
      description := some "Returned when request validation fails" } {}
    [(.str "success", .boolean { description := some "Always false" }),
      (.str "errors", .array {} {} record)]

/-- Where the parameters of a target are found. -/
def location? : Target → Option String
  | .param => some "path"
  | .query => some "query"
  | .header => some "header"
  | .cookie => some "cookie"
  | .json | .form => none

/-- Whether a node has a default or stands for null besides. -/
def standsForAbsence : Schema → Bool
  | .nullable .. => true
  | s => s.default?.isSome

/-- Whether a value may be left out, as far as the node and the node behind its refinements tell. -/
def acceptsAbsence (s : Schema) : Bool := standsForAbsence s || standsForAbsence s.unwrap

/-- A parameter for a property. Parameters in the path are always required. -/
def parameter (location : String) (required : List Value) (key : Value) (s : Schema) : Build Doc := do
  let needed := location == "path" || (key.isIn required && !acceptsAbsence s)
  let doc := Doc.record [("name", .data key), ("in", .text location),
    ("required", .data (.bool needed)), ("schema", ← s.document true)]
  let description := (s.annotations?.bind (·.description)).filter fun d => !d.isEmpty
  return doc.setSome "description" (description.map .text)

/-- The parameters of one validator. -/
def validatorParameters (v : RouteValidator) : Build (List Doc) := do
  let target := v.stage.target
  match location? target with
  | none => return []
  | some location =>
    match v.stage.pipeline.schema.object? with
    | none => throw (.documentation (.parameterNotObject v.method v.path target))
    | some (fields, properties) =>
      let required := Schema.requiredKeys fields properties
      properties.mapM fun p => parameter location required p.1 p.2

/-- The parameters of a route, in the order of its validators and their properties. -/
def parameters (route : Route) : Build (List Doc) := do
  return (← route.validators.mapM validatorParameters).flatten

def jsonMediaType : String := "application/json"

def formMediaTypes : List String := ["application/x-www-form-urlencoded", "multipart/form-data"]

/-- The media types of the body that a target reads. -/
def bodyMediaTypes : Target → List String
  | .json => [jsonMediaType]
  | .form => formMediaTypes
  | _ => []

/-- The content that one validator documents for the body. -/
def validatorContent (v : RouteValidator) : Build (List (String × Doc)) := do
  match bodyMediaTypes v.stage.target with
  | [] => return []
  | types =>
    let doc ← v.stage.pipeline.schema.document true
    return types.map fun t => (t, .record [("schema", doc)])

/-- Whether the body may not be left out. -/
def bodyRequired (route : Route) : Bool :=
  route.validators.any fun v =>
    !(bodyMediaTypes v.stage.target).isEmpty && !acceptsAbsence v.stage.pipeline.schema

/-- The body of a route, if one of its validators reads it. -/
def requestBody (route : Route) : Build (Option Doc) := do
  let content := (← route.validators.mapM validatorContent).flatten
  if content.isEmpty then return none
  return some (.record [("required", .data (.bool (bodyRequired route))), ("content", .record content)])

/-- The schema of a response: a schema, or a ready-made dictionary. -/
def responseSchema (s : Schema) : Build Doc :=
  if s.isNode then s.document true
  else
    match s with
    | .foreign (.dict entries) => return .data (.dict entries)
    | s => throw (.documentation (.unsupportedResponse s.typeName))

/-- A member of a media type. -/
def mediaMember : Value × MediaMember → Build (Value × Doc)
  | (key, .data v) => return (key, .data v)
  | (key, .schema s) => return (key, ← responseSchema s)

/-- A member of a response. -/
def responseMember : Value × ResponseMember → Build (Value × Doc)
  | (key, .data v) => return (key, .data v)
  | (key, .content types) => do
    let types ← types.mapM fun t => return (t.1, Doc.object (← t.2.mapM mediaMember))
    return (key, .object types)

/-- A declared response. Every response has a description, which may be empty. -/
def declaredResponse (r : ResponseDescription) : Build Doc := do
  let doc := Doc.object (← r.mapM responseMember)
  return if (doc.get? "description").isSome then doc else doc.set "description" (.text "")

/-- Binds a status to a response; a bound status gets the new response. -/
def bindResponse (responses : List (String × Doc)) (status : String) (doc : Doc) :
    List (String × Doc) :=
  responses.filter (·.1 != status) ++ [(status, doc)]

/-- The responses that a route declares, by the texts of their statuses. -/
def declaredResponses (route : Route) : Build (List (String × Doc)) := do
  let declared := (route.description.map (·.responses)).getD []
  declared.foldlM (fun responses r => do
    let doc ← declaredResponse r.2
    return bindResponse responses (← (r.1.plain : Except Fault String)) doc) []

/-- The response to input that fails validation. -/
def failureResponse : Build Doc := do
  let schema ← Collector.add "ValidationErrorResponse" validationErrorSchema
  return .record [("description", .text "Validation failed"),
    ("content", .record [(jsonMediaType, .record [("schema", schema)])])]

/-- The statuses with which the validators of a route refuse input, as texts. -/
def failureStatuses (settings : Settings) (route : Route) : Except Fault (List String) := do
  let texts ← route.validators.mapM fun v => intText (v.stage.statusFor settings)
  return texts.eraseDups

/-- Adds a failure response for each status that has no response. -/
def addFailures (responses : List (String × Doc)) (statuses : List String) :
    Build (List (String × Doc)) :=
  statuses.foldlM (fun responses status => do
    if responses.any (·.1 == status) then return responses
    return bindResponse responses status (← failureResponse)) responses

/-- Adds a response for success if there is none. -/
def addSuccess (responses : List (String × Doc)) : List (String × Doc) :=
  if responses.any fun r => r.1.toList.head? == some '2' then responses
  else bindResponse responses "200" (.record [("description", .text "Successful response")])

/-- Responses in the order of their statuses. -/
def sortResponses (responses : List (String × Doc)) : List (String × Doc) :=
  (Schema.sortTexts (responses.map (·.1))).filterMap fun s => (responses.lookup s).map (s, ·)

/-- The responses of a route. -/
def responses (settings : Settings) (route : Route) : Build Doc := do
  let declared ← declaredResponses route
  let statuses ← failureStatuses settings route
  let all ← addFailures (addSuccess declared) statuses
  return .record (sortResponses all)

private def nonEmpty (s : Option String) : Option Doc := (s.filter fun t => !t.isEmpty).map .text

/-- The members that describe an operation in words. -/
def wording (d : RouteDescription) : Doc :=
  let tags := if d.tags.isEmpty then none else some (Doc.data (.list d.tags))
  (Doc.record []).setSome "tags" tags
    |>.setSome "summary" (nonEmpty d.summary)
    |>.setSome "description" (nonEmpty d.description)
    |>.setSome "operationId" (nonEmpty d.operationId)
    |>.setSome "deprecated" (if d.deprecated then some (.data (.bool true)) else none)

/-- The documentation of a route. -/
def operation (settings : Settings) (route : Route) : Build Doc := do
  let doc := (route.description.map wording).getD (.record [])
  let ps ← parameters route
  let doc := if ps.isEmpty then doc else doc.set "parameters" (.array ps)
  let doc := doc.setSome "requestBody" (← requestBody route)
  return doc.set "responses" (← responses settings route)

end ApiContract.Documentation
