import ApiContract.Documentation.Operation

/-!
# The document of an application

One document describes every route of a registry that is not hidden, with the schemas they share.
Registered components come first; other names are bound as the routes that use them are described.
-/

namespace ApiContract.Documentation

open Routing

/-- The version of the document format. -/
def formatVersion : String := "3.1.0"

/-- Whether a route is described. -/
def isVisible (route : Route) : Bool := !(route.description.any (·.hide))

/-- Adds an operation to those of its path; paths and methods keep their first place. -/
def addOperation (paths : Doc) (path method : String) (operation : Doc) : Doc :=
  let operations := (paths.get? path).getD (.record [])
  paths.set path (operations.set method operation)

/-- The operations of routes under their paths and methods. -/
def operations (settings : Settings) (routes : List Route) : Build Doc :=
  routes.foldlM (fun paths route => do
    let doc ← operation settings route
    return addOperation paths (PathPattern.documented route.path) (Text.toLower route.method) doc)
    (.record [])

/-- Title, version and description. -/
def info (settings : Settings) : Doc :=
  let description := settings.description.filter fun d => !d.isEmpty
  (Doc.record [("title", .text settings.title), ("version", .text settings.version)]).setSome
    "description" (description.map .text)

def server (s : Server) : Doc :=
  (Doc.record [("url", .text s.url)]).setSome "description" (s.description.map .text)

/-- The document of a registry, in the build that collects its components. -/
def build (registry : Registry) (settings : Settings) : Build Doc := do
  for (name, s) in registry.components do
    let _ ← Collector.add name s
  let paths ← operations settings (registry.routes.filter isVisible)
  let doc := Doc.record [("openapi", .text formatVersion), ("info", info settings)]
  let servers := settings.servers.map server
  let doc := if servers.isEmpty then doc else doc.set "servers" (.array servers)
  let doc := doc.set "paths" paths
  return doc.set "components" (.record [("schemas", .record (← get).schemas)])

/-- The document of a registry. -/
def generate (registry : Registry) (settings : Settings) : Except Fault Doc :=
  ((build registry settings).run {}).1

/-- The text of a document, the same wherever it is shown. -/
def render (v : Value) : Except Fault String := Json.write Json.documentStyle v

/-- The text of the document of a registry. -/
def text (registry : Registry) (settings : Settings) : Except Fault String := do
  render (← generate registry settings).toValue

end ApiContract.Documentation
