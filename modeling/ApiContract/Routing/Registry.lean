import ApiContract.Routing.Stage
import ApiContract.Schema.ComponentName
import ApiContract.Schema.Equality
import ApiContract.Text.LetterCase

/-!
# The registry

The routes of an application and the schemas they share, in the order of registration. A route is known
by its method and path: the registry keeps them as keys, and no two routes have one in common. What the
documentation needs is taken from a route's stages when it is registered. A frozen registry takes no more registrations; a
registration that is refused leaves it as it was.
-/

namespace ApiContract.Routing

/-- What a handler returns: a response, or a value to make one of. -/
inductive HandlerReply where
  | response (r : Http.Response)
  | value (v : Value)

/-- The end of a route. -/
inductive Handler where
  | function (name : String) (run : Context → Action HandlerReply)
  /-- Something that cannot be called. -/
  | value (v : Value)

/-- A validation of a route, as the documentation sees it. -/
structure RouteValidator where
  method : String
  path : String
  stage : ValidationStage

/-- A registered route. -/
structure Route where
  method : String
  path : String
  stages : List Stage
  handler : Handler
  name : Option String
  validators : List RouteValidator
  description : Option RouteDescription

/-- A reference to a registered route. -/
structure RouteHandle where
  index : Nat
  method : String
  path : String
  deriving DecidableEq, Repr

/-- What a route is known by. -/
def Route.key (route : Route) : String × String := (route.method, route.path)

structure Registry where
  routes : List Route := []
  components : List (String × Schema) := []
  frozen : Bool := false
  /-- The methods and paths that are taken. -/
  keys : List (String × String) := routes.map Route.key

/-- The methods that a route can have. -/
def httpMethods : List String := ["GET", "POST", "PUT", "PATCH", "DELETE", "HEAD", "OPTIONS"]

/-- What the documentation needs of a row of stages: the validations and the last description. The
targets of the validations before them are given. -/
def extract (method path : String) (seen : List Target) (description : Option RouteDescription) :
    List Stage → Except Fault (List RouteValidator × Option RouteDescription)
  | [] => .ok ([], description)
  | .validation stage :: rest => do
    if stage.target ∈ seen then throw (.refused (.targetTwice stage.target method path))
    let (validators, description) ← extract method path (stage.target :: seen) description rest
    return (⟨method, path, stage⟩ :: validators, description)
  | .description d :: rest => extract method path seen (some d) rest
  | .custom _ :: rest => extract method path seen description rest
  | .value v :: _ => do throw (.refused (.stageNotCallable (← v.display) method path))

namespace Registry

/-- Refuses a registration in a frozen registry. -/
def ensureOpen (r : Registry) : Except Fault Unit := if r.frozen then .error .frozen else .ok ()

/-- Whether a route has this method and path. -/
def isTaken (r : Registry) (method path : String) : Bool := r.keys.contains (method, path)

/-- Registers a route. -/
def addRoute (r : Registry) (method path : String) (stages : List Stage) (handler : Handler)
    (name : Option String) : Except Fault (Registry × RouteHandle) := do
  r.ensureOpen
  let method := Text.toUpper method
  unless method ∈ httpMethods do throw (.refused (.unknownMethod method))
  unless path.toList.head? == some '/' do throw (.refused (.relativePath path))
  if r.isTaken method path then throw (.refused (.routeTaken method path))
  if let .value _ := handler then throw (.refused (.handlerNotCallable method path))
  let (validators, description) ← extract method path [] none stages
  let route := { method, path, stages, handler, name, validators, description }
  return ({ r with routes := r.routes ++ [route], keys := r.keys ++ [route.key] },
    ⟨r.routes.length, method, path⟩)

/-- Binds a name to a schema: a bound name keeps its place. -/
def bindComponent (components : List (String × Schema)) (name : String) (s : Schema) :
    List (String × Schema) :=
  if components.any fun c => c.1 == name then
    components.map fun c => if c.1 == name then (name, s) else c
  else components ++ [(name, s)]

/-- Registers a schema that is shared under a name. A bound name can only be bound to an equal schema
again. -/
def addComponent (r : Registry) (name : String) (s : Schema) : Except Fault Registry := do
  r.ensureOpen
  unless ComponentName.accepts name do throw (.refused (.componentName name))
  unless s.isNode do throw (.schema (.componentNotSchema name) "")
  let _ ← s.compile
  match r.components.lookup name with
  | some existing =>
    unless existing.same s do throw (.refused (.componentTaken name))
  | none => pure ()
  return { r with components := bindComponent r.components name s }

/-- Ends registration. -/
def freeze (r : Registry) : Registry := { r with frozen := true }

/-- The route that a handle refers to. -/
def get (r : Registry) (h : RouteHandle) : Except Fault Route :=
  match r.routes[h.index]? with
  | some route => .ok route
  | none => .error .noSuchEntry

/-- The validations of all routes. -/
def validators (r : Registry) : List RouteValidator := r.routes.flatMap Route.validators

end Registry

namespace Route

/-- Answers a request: the handler is called once every stage has let the request pass. -/
def respond (route : Route) : Handling Http.Response := do
  match ← runStages route.stages with
  | .stop response => return response
  | .proceed =>
    match route.handler with
    | .value _ => throw .unsupported
    | .function _ run =>
      match ← call run with
      | .response response => return response
      | .value v => Http.Response.ofValue v

end Route

end ApiContract.Routing
