import ApiContract.Files
import ApiContract.Settings.Basic
import ApiContract.Yaml.Document

/-!
# Loading settings

Settings come from a file, from environment variables and from overrides; the later of these prevail.
The file is the one asked for, or else the one that the environment names.
-/

namespace ApiContract

/-- Environment variables with their values. -/
abbrev Environment := List (String × String)

namespace Environment

/-- Whether a flag is switched on, with a default for one that is empty or not set. -/
def flag (env : Environment) (name : String) (default : Bool) : Bool :=
  let value := Text.toLower ((env.lookup name).getD "")
  if value.isEmpty then default else ["1", "true", "yes"].contains value

/-- A variable that is set and not empty. -/
def nonEmpty? (env : Environment) (name : String) : Option String :=
  (env.lookup name).filter (!·.isEmpty)

end Environment

namespace Settings

/-- The settings that environment variables give. -/
def environmentEntries (env : Environment) : List (Value × Value) :=
  let flagEntry := fun (name key : String) =>
    ((env.lookup name).map fun _ => (Value.str key, Value.bool (env.flag name false))).toList
  let textEntry := fun (name key : String) =>
    ((env.nonEmpty? name).map fun v => (Value.str key, Value.str v)).toList
  flagEntry "SCHEMAROUTE_DEBUG" "debug" ++ flagEntry "SCHEMAROUTE_TRACING" "tracing" ++
    textEntry "SCHEMAROUTE_LOG_LEVEL" "log_level" ++
    textEntry "SCHEMAROUTE_FAILURE_STATUS" "failure_status_code"

/-- The settings that a file gives. An empty document gives none. -/
def fileEntries (files : Files) (path : String) : Except Fault (List (Value × Value)) := do
  match files.read? path with
  | none =>
    if files.isDirectory path then throw .isDirectory
    throw (.fileMissing "schemaroute config not found at " (Files.normalize path))
  | some text =>
    let loaded ← Yaml.readDocument text
    if !loaded.truthy then return []
    match loaded with
    | .dict entries => return entries
    | _ => throw (.refused .settingsNotMapping)

/-- Loads the settings. Overrides that are null do not count. -/
def load (files : Files) (env : Environment) (path : Option String)
    (overrides : List (Value × Value)) : Except Fault Settings := do
  let base ← match path.or (env.nonEmpty? "SCHEMAROUTE_CONFIG") with
    | some p => fileEntries files p
    | none => pure []
  let given := environmentEntries env ++ overrides.filter fun e => !e.2.isNull
  ofEntries (given.foldl (fun es e => Value.bind es e.1 e.2) base)

end Settings

end ApiContract
