import ApiContract.CommandLine.Run

/-!
# The program

Runs a command on the files and environment variables of the process. The modules that applications
are taken from are those linked into the program, which here are none.
-/

namespace ApiContract.CommandLine

/-- The environment variables that the program looks at. -/
def variableNames : List String :=
  ["SCHEMAROUTE_CONFIG", "SCHEMAROUTE_DEBUG", "SCHEMAROUTE_LOG_LEVEL", "SCHEMAROUTE_FAILURE_STATUS",
    "SCHEMAROUTE_TRACING"]

/-- The variables that are set. -/
def readEnvironment : IO Environment :=
  variableNames.filterMapM fun name => do return (← IO.getEnv name).map (name, ·)

/-- The texts of those paths that lead to files. -/
def readFiles (paths : List String) : IO Files := do
  let texts ← paths.filterMapM fun (path : String) => do
    try return some (path, ← IO.FS.readFile path) catch _ => return none
  return ⟨texts⟩

/-- The paths that arguments may name: they stand alone or behind an equals sign. -/
def pathsIn (args : List String) : List String :=
  args ++ args.map fun arg => String.ofList ((arg.toList.dropWhile (· != '=')).drop 1)

/-- Runs the program with modules linked into it. -/
def runLinked (modules : List (String × List (String × Attribute))) (args : List String) :
    IO UInt32 := do
  let env ← readEnvironment
  let files ← readFiles (pathsIn args ++ (env.lookup "SCHEMAROUTE_CONFIG").toList)
  let report := run { files, env, modules } args
  for (path, text) in report.files.texts do
    unless files.texts.contains (path, text) do IO.FS.writeFile path text
  IO.print report.out
  IO.eprint report.err
  if let some f := report.fault then IO.eprintln (f.message?.getD "unexpected fault")
  return report.exit.toUInt32

end ApiContract.CommandLine

def main (args : List String) : IO UInt32 := ApiContract.CommandLine.runLinked [] args
