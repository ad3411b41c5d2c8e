import ApiContract.CommandLine.Arguments
import ApiContract.Routing.Application
import ApiContract.Settings.Load

/-!
# Running commands

A command works on what surrounds it: files, environment variables, and the modules that an
application can be taken from. What it does is reported as a whole: what it prints, the files it
leaves, the servers it starts, and how it ends.
-/

namespace ApiContract.CommandLine

open Routing

/-- What a module has under a name. -/
inductive Attribute where
  | router (r : Router)
  | value (v : Value)

/-- What surrounds a command. -/
structure World where
  files : Files := {}
  env : Environment := []
  /-- Modules by their names. -/
  modules : List (String × List (String × Attribute)) := []
  /-- Whether servers are stopped by an interrupt. -/
  interrupted : Bool := false

/-- The address and the log level of a server. -/
structure Serving where
  host : String
  port : Int
  logLevel : String
  deriving DecidableEq, Repr

/-- What a command has done. -/
structure Report where
  exit : Nat := 0
  out : String := ""
  err : String := ""
  served : List Serving := []
  files : Files
  /-- A fault that the command did not expect. -/
  fault : Option Fault := none

/-- Why a command ends early. -/
inductive Failure where
  /-- An error that the command reports. -/
  | reported (message : String)
  | unexpected (f : Fault)

/-- An error that a command reports if it is one of those it expects. -/
private def expecting {α : Type} (message? : Fault → Option String) (r : Except Fault α) :
    Except Failure α :=
  match r with
  | .ok a => .ok a
  | .error f =>
    match message? f with
    | some m => .error (.reported m)
    | none => .error (.unexpected f)

/-- Loads the settings of a command. -/
def loadSettings (w : World) (config : Option String) (debug : Bool) : Except Failure Settings :=
  let overrides := if debug then [(Value.str "debug", Value.bool true)] else []
  expecting (fun f =>
      match f with
      | .fileMissing .. | .refused _ | .settings _ | .digitLimit | .notFinite =>
        some (f.message?.getD "")
      | _ => none)
    (Settings.load w.files w.env config overrides)

/-- Why a module is not found: the first part of its name must be one, and a module that is there has
no parts. -/
private def missingModule (w : World) (name : String) : String :=
  let first := String.ofList (name.toList.takeWhile (· != '.'))
  if w.modules.any fun m => m.1 == first then
    s!"No module named {Text.quoted name}; {Text.quoted first} is not a package"
  else s!"No module named {Text.quoted first}"

/-- The router that a text of module and attribute leads to. -/
def findRouter (w : World) (spec : String) : Except Failure Router := do
  let cs := spec.toList
  let name := String.ofList (cs.takeWhile (· != ':'))
  let member := String.ofList ((cs.dropWhile (· != ':')).drop 1)
  if name.isEmpty || member.isEmpty then
    throw (.reported s!"APP must be given as 'module:attribute', got '{spec}'")
  if cs.head? == some '.' then throw (.unexpected .unsupported)
  match w.modules.lookup name with
  | none =>
    throw (.reported s!"Could not import module '{name}': {missingModule w name}")
  | some attributes =>
    match attributes.lookup member with
    | some (.router r) => return r
    | none | some (.value .null) =>
      throw (.reported s!"Module '{name}' has no attribute '{member}'")
    | some (.value v) =>
      throw (.reported s!"'{spec}' is a {v.typeName}, expected a SchemaRouter")

/-- The text of a router's document. -/
def document (r : Router) (settings : Settings) : Except Failure String :=
  expecting (fun f =>
      match f with
      | .documentation d => some ("OpenAPI generation failed: " ++ d.message)
      | _ => none)
    (Documentation.text r.registry settings)

/-- Prints the document of a router or writes it to a file. -/
def openapi (w : World) (app : String) (output config : Option String) (debug : Bool) :
    Except Failure Report := do
  let settings ← loadSettings w config debug
  let text ← document (← findRouter w app) settings
  match output with
  | none => return { out := text ++ "\n", files := w.files }
  | some path =>
    let path := Files.normalize path
    unless w.files.hasParent path do
      throw (.unexpected (.fileMissing "[Errno 2] No such file or directory: " (Text.quoted path)))
    return { err := s!"Wrote OpenAPI document to {path}\n", files := w.files.write path text }

/-- The server of an application. -/
def serving (host : String) (port : Int) (settings : Settings) : Serving :=
  ⟨host, port, Text.toLower settings.logLevel⟩

/-- Builds and serves the application of a router. -/
def serve (w : World) (app host : String) (port : Int) (onlyDocument : Bool)
    (config : Option String) (debug : Bool) : Except Failure Report := do
  let settings ← loadSettings w config debug
  let router ← findRouter w app
  if onlyDocument then
    return { out := (← document router settings) ++ "\n", files := w.files }
  match ((Application.build settings).run.run router).run.1 with
  | .error f => throw (.unexpected f)
  | .ok _ =>
    let address := s!"http://{host}:{port}"
    let banner := s!"Server ready on {address}\n" ++
      s!"   OpenAPI document: {address}{settings.openapiPath}\n"
    let farewell := if w.interrupted then "Server stopped\n" else ""
    return { out := banner ++ farewell, served := [serving host port settings], files := w.files }

/-- Runs the program with its arguments. -/
def run (w : World) (args : List String) : Report :=
  match readArguments w.files args with
  | .error (misuse, command) => { exit := 2, err := misuse.report command, files := w.files }
  | .ok invocation =>
    let result : Except Failure Report := match invocation with
      | .help => .ok { out := programHelp, files := w.files }
      | .commandHelp c => .ok { out := c.helpText, files := w.files }
      | .openapi app output config debug => openapi w app output config debug
      | .serve app host port onlyDocument config debug =>
        serve w app host port onlyDocument config debug
    match result with
    | .ok report => report
    | .error (.reported m) => { exit := 1, err := s!"Error: {m}\n", files := w.files }
    | .error (.unexpected f) => { exit := 1, fault := some f, files := w.files }

/-- Serves a router, or gives the text of its document if the arguments ask for that. -/
def runRouter (args : List String) (settings : Settings) (host : String) (port : Int) :
    Registration (String × List Serving) := do
  if args.contains "--openapi" then
    return ((← (Documentation.text (← get).registry settings : Except Fault String)) ++ "\n", [])
  else
    let _ ← Application.build settings
    return ("", [serving host port settings])

end ApiContract.CommandLine
