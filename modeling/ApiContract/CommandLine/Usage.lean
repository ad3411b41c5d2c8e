import ApiContract.Text.Quoted

/-!
# Usage of the command line

The commands with their options, the help texts, and the words for arguments that are not understood.
-/

namespace ApiContract.CommandLine

/-- The name under which the program speaks of itself. -/
def programName : String := "cli"

inductive Command where
  | openapi
  | serve
  deriving DecidableEq, Repr

inductive Flag where
  | output
  | config
  | host
  | port
  | document
  | debug
  | help
  deriving DecidableEq, Repr

namespace Flag

/-- The spellings of an option, as messages list them. -/
def spellings : Flag → List String
  | output => ["--output", "-o"]
  | config => ["--config"]
  | host => ["--host"]
  | port => ["--port"]
  | document => ["--openapi"]
  | debug => ["--debug"]
  | help => ["--help"]

/-- Whether an option has a value. -/
def takesValue : Flag → Bool
  | output | config | host | port => true
  | document | debug | help => false

/-- The option in messages about its value. -/
def hint (f : Flag) : String := " / ".intercalate (f.spellings.map fun s => "'" ++ s ++ "'")

end Flag

namespace Command

def name : Command → String
  | openapi => "openapi"
  | serve => "serve"

def ofName? (s : String) : Option Command := [openapi, serve].find? (·.name == s)

/-- The options of a command. -/
def flags : Command → List Flag
  | openapi => [.output, .config, .debug, .help]
  | serve => [.host, .port, .document, .config, .debug, .help]

/-- The option of a spelling. -/
def flag? (c : Command) (spelling : String) : Option Flag :=
  c.flags.find? fun f => f.spellings.contains spelling

/-- The command with the program in front. -/
def path (c : Command) : String := programName ++ " " ++ c.name

def summary : Command → String
  | openapi => "Print the OpenAPI document for APP without starting a server."
  | serve => "Serve APP, a SchemaRouter given as `module:attribute`."

private def examples : Command → List String
  | openapi =>
    ["schemaroute openapi internal_api:router",
      "schemaroute openapi internal_api:router --output openapi.json"]
  | serve =>
    ["schemaroute serve internal_api:router",
      "schemaroute serve internal_api:router --port 8080",
      "schemaroute serve internal_api:router --openapi   # print docs and exit"]

/-- The lines of help on the options. -/
private def flagLines : Command → List String
  | openapi =>
    ["-o, --output FILE  Write the document to a file",
      "--config FILE      Settings YAML file",
      "--debug            Show detailed debug information",
      "--help             Show this message and exit."]
  | serve =>
    ["--host TEXT     Bind address  [default: 127.0.0.1]",
      "--port INTEGER  Bind port  [default: 3000]",
      "--openapi       Print the OpenAPI document and exit",
      "--config FILE   Settings YAML file",
      "--debug         Show detailed debug information",
      "--help          Show this message and exit."]

/-- How the command is called. -/
def usage (c : Command) : String := c.path ++ " [OPTIONS] APP"

private def lines (ls : List String) : String := String.join (ls.map (· ++ "\n"))

/-- The help text. -/
def helpText (c : Command) : String :=
  lines (["Usage: " ++ c.usage, "", "  " ++ c.summary, "", "  Examples:"] ++
    c.examples.map ("      " ++ ·) ++ ["", "Options:"] ++ c.flagLines.map ("  " ++ ·))

end Command

/-- How the program is called. -/
def programUsage : String := programName ++ " [OPTIONS] [COMMAND] [ARGS]..."

/-- The help text of the program. -/
def programHelp : String :=
  "Usage: " ++ programUsage ++ "\n\n  schemaroute CLI\n\nOptions:\n" ++
    "  --help  Show this message and exit.\n\nCommands:\n" ++
    "  openapi  " ++ Command.openapi.summary ++ "\n" ++
    "  serve    " ++ Command.serve.summary ++ "\n"

/-- Why arguments are not understood. -/
inductive Misuse where
  | unknownCommand (name : String)
  | unknownFlag (spelling : String)
  | missingValue (spelling : String)
  | needlessValue (spelling : String)
  | notInteger (flag : Flag) (given : String)
  | directory (flag : Flag) (given : String)
  | missingApp
  | extraArguments (args : List String)
  deriving DecidableEq, Repr

namespace Misuse

def message : Misuse → String
  | unknownCommand n => s!"No such command {Text.quoted n}."
  | unknownFlag f => s!"No such option {Text.quoted f}."
  | missingValue f => s!"Option {Text.quoted f} requires an argument."
  | needlessValue f => s!"Option {Text.quoted f} does not take a value."
  | notInteger f g => s!"Invalid value for {f.hint}: {Text.quoted g} is not a valid integer."
  | directory f g => s!"Invalid value for {f.hint}: File {Text.quoted g} is a directory."
  | missingApp => "Missing argument 'APP'."
  | extraArguments args =>
    let noun := if args.length = 1 then "argument" else "arguments"
    s!"Got unexpected extra {noun} (" ++ " ".intercalate args ++ ")"

/-- What is shown for a misuse of a command, or of the program if no command is known. -/
def report (m : Misuse) (c : Option Command) : String :=
  let path := (c.map Command.path).getD programName
  let usage := (c.map Command.usage).getD programUsage
  s!"Usage: {usage}\nTry '{path} --help' for help.\n\nError: {m.message}\n"

end Misuse

end ApiContract.CommandLine
