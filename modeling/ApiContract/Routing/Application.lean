import ApiContract.Documentation.OpenApi
import ApiContract.Routing.Router

/-!
# Applications

An application serves the routes of a registry, and its documentation at a path of its own. A request
goes to the first route whose path and method fit. If only the path fits it is refused, and if the path
would fit with or without a slash at its end the client is sent there.

Building an application freezes the registry, also if the building fails in the end.
-/

namespace ApiContract.Routing

/-- What answers requests to a path. -/
inductive Endpoint where
  | route (r : Route)
  | documentation

/-- A path that is served. -/
structure Mounted where
  path : String
  pattern : PathPattern
  name : String
  methods : List String
  endpoint : Endpoint

structure Application where
  settings : Settings
  registry : Registry
  mounted : List Mounted

/-- The methods that are served for a method: whoever may get a thing may also ask for its head
alone. -/
def servedMethods (method : String) : List String :=
  if method == "GET" then ["GET", "HEAD"] else [method]

/-- The name of a route, or else that of its handler. -/
def Route.endpointName (route : Route) : String :=
  match route.name, route.handler with
  | some name, _ => name
  | none, .function name _ => name
  | none, .value _ => "endpoint"

namespace Mounted

def ofRoute (route : Route) : Except Fault Mounted := do
  let pattern ← PathPattern.read route.path
  return ⟨route.path, pattern, route.endpointName, servedMethods route.method, .route route⟩

/-- The path of the documentation. -/
def ofDocumentation (path : String) : Except Fault Mounted := do
  return ⟨path, ← PathPattern.read path, "endpoint", servedMethods "GET", .documentation⟩

end Mounted

namespace Application

/-- An application for a registry. -/
def ofRegistry (registry : Registry) (settings : Settings) : Except Fault Application := do
  let routes ← registry.routes.mapM Mounted.ofRoute
  let documentation ← Mounted.ofDocumentation settings.openapiPath
  return { settings, registry, mounted := routes ++ [documentation] }

/-- Builds the application of a router. -/
def build (settings : Settings) : Registration Application := do
  modify Router.freeze
  ofRegistry (← get).registry settings

/-- Where a request goes. -/
inductive Selection where
  | found (m : Mounted) (params : List (Value × Value))
  /-- A path fits, but no method of it. -/
  | wrongMethod
  | nothing

/-- Looks for the first path that fits together with its method; `fallback` is where the request goes
if there is none. -/
def selectFrom (method path : String) (fallback : Selection) : List Mounted → Except Fault Selection
  | [] => .ok fallback
  | m :: rest => do
    match ← m.pattern.match? path with
    | none => selectFrom method path fallback rest
    | some params =>
      if m.methods.contains method then return .found m params
      else selectFrom method path .wrongMethod rest

/-- Where a request goes. -/
def select (app : Application) (method path : String) : Except Fault Selection :=
  selectFrom method path .nothing app.mounted

/-- Whether some path fits, with whatever method. -/
def serves (path : String) : List Mounted → Except Fault Bool
  | [] => .ok false
  | m :: rest => do
    match ← m.pattern.match? path with
    | some _ => return true
    | none => serves path rest

/-- A path with the slashes at its end removed if it has any, else with one added. -/
def otherSpelling (path : String) : String :=
  if path.toList.getLast? == some '/' then Router.dropSlashes path else path ++ "/"

/-- The document as a response; a registry that cannot be documented is an error of the server. -/
def documentation (app : Application) : Except Fault Http.Response :=
  match Documentation.generate app.registry app.settings with
  | .ok doc => do
    let text ← Documentation.render doc.toValue
    return ⟨.code 200, some Http.Response.jsonType, text⟩
  | .error (.documentation defect) =>
    Http.Response.json (.code 500) (.record [("error", .str "documentation_unavailable"),
      ("message", .str defect.message)])
  | .error f => .error f

/-- Answers a request that no route takes. -/
def answerUnrouted (app : Application) (path : String) : Except Fault Http.Response := do
  if path != "/" then
    if ← serves (otherSpelling path) app.mounted then return Http.Response.empty 307
  return Http.Response.plain 404 "Not Found"

/-- Answers a request, in its context. -/
def respond (app : Application) (request : Http.Request) : Handling Http.Response := do
  match ← app.select request.method request.path with
  | .found m params =>
    match m.endpoint with
    | .documentation => app.documentation
    | .route route =>
      modify fun c => { c with params }
      route.respond
  | .wrongMethod => return Http.Response.plain 405 "Method Not Allowed"
  | .nothing => app.answerUnrouted request.path

/-- What has come of a request: the response, the fault that led to it if there was one, and the notes
of the application's own code. -/
structure Exchange where
  response : Http.Response
  fault : Option Fault := none
  notes : List Value

/-- Answers a request. A fault is an error of the server, unless it says which response to send. -/
def handle (app : Application) (request : Http.Request) : Exchange :=
  let (result, context) := ((app.respond request).run.run { request, settings := app.settings }).run
  match result with
  | .ok response => { response, notes := context.notes }
  | .error (.http status detail) =>
    { response := .plain status detail, notes := context.notes }
  | .error f =>
    { response := .plain 500 "Internal Server Error", fault := some f, notes := context.notes }

end Application

end ApiContract.Routing
