import ApiContract.CommandLine.Usage
import ApiContract.Files
import ApiContract.Number.Numeral

/-!
# Arguments

Reading the arguments of the program. Options may stand before and behind the other arguments of a
command; behind a double hyphen nothing is an option. The values of options are judged in the order in
which the options come, then the arguments are counted.
-/

namespace ApiContract.CommandLine

/-- What the program is asked to do. -/
inductive Invocation where
  | help
  | commandHelp (c : Command)
  | openapi (app : String) (output config : Option String) (debug : Bool)
  | serve (app host : String) (port : Int) (onlyDocument : Bool) (config : Option String)
    (debug : Bool)
  deriving DecidableEq, Repr

/-- The arguments of a command, taken apart: options with their values, and all others. -/
structure Given where
  flags : List (Flag × String) := []
  others : List String := []

/-- A spelling with a value behind an equals sign, if there is one. -/
private def splitValue (arg : String) : String × Option String :=
  let cs := arg.toList
  if cs.contains '=' then
    (String.ofList (cs.takeWhile (· != '=')), some (String.ofList ((cs.dropWhile (· != '=')).drop 1)))
  else (arg, none)

/-- What an argument is: an option with the value given along with it, or another argument. -/
private inductive Shape where
  | flag (f : Flag) (spelling : String) (value : Option String)
  | other

/-- Tells options from other arguments. An option of one letter may have its value right behind it. -/
private def shape (c : Command) (arg : String) : Except Misuse Shape :=
  match arg.toList with
  | '-' :: '-' :: _ =>
    let (spelling, value) := splitValue arg
    match c.flag? spelling with
    | some f => .ok (.flag f spelling value)
    | none => .error (.unknownFlag spelling)
  | '-' :: letter :: rest =>
    let spelling := String.ofList ['-', letter]
    match c.flag? spelling with
    | some f => .ok (.flag f spelling (if rest.isEmpty then none else some (String.ofList rest)))
    | none => .error (.unknownFlag spelling)
  | _ => .ok .other

/-- Adds an option. -/
def Given.add (g : Given) (f : Flag) (value : String) : Given :=
  { g with flags := g.flags ++ [(f, value)] }

/-- Takes the arguments of a command apart. An option that waits for its value takes the next argument,
whatever it is. -/
def takeApart (c : Command) (given : Given) (waiting : Option (Flag × String)) :
    List String → Except Misuse Given
  | [] =>
    match waiting with
    | some (_, spelling) => .error (.missingValue spelling)
    | none => .ok given
  | arg :: rest =>
    match waiting with
    | some (f, _) => takeApart c (given.add f arg) none rest
    | none =>
      if arg == "--" then .ok { given with others := given.others ++ rest }
      else
        match shape c arg with
        | .error m => .error m
        | .ok .other => takeApart c { given with others := given.others ++ [arg] } none rest
        | .ok (.flag f spelling value) =>
          match f.takesValue, value with
          | true, some v => takeApart c (given.add f v) none rest
          | true, none => takeApart c given (some (f, spelling)) rest
          | false, some _ => .error (.needlessValue spelling)
          | false, none => takeApart c (given.add f "") none rest

namespace Given

/-- The last value of an option. -/
def value? (g : Given) (f : Flag) : Option String := g.flags.reverse.lookup f

def has (g : Given) (f : Flag) : Bool := (g.value? f).isSome

/-- Judges the value of an option. -/
def judge (g : Given) (files : Files) (f : Flag) : Except Misuse Unit :=
  let given := (g.value? f).getD ""
  match f with
  | .port =>
    if (Numeral.readInt? given.toList).isNone then .error (.notInteger f given) else .ok ()
  | .output | .config =>
    if !given.isEmpty && files.isDirectory given then .error (.directory f given) else .ok ()
  | _ => .ok ()

/-- What a command is asked to do. -/
def invocation (g : Given) (files : Files) (c : Command) : Except Misuse Invocation := do
  if g.has .help then return .commandHelp c
  for f in (g.flags.map (·.1)).eraseDups do g.judge files f
  match g.others with
  | [] => throw .missingApp
  | app :: extra =>
    unless extra.isEmpty do throw (.extraArguments extra)
    match c with
    | .openapi => return .openapi app (g.value? .output) (g.value? .config) (g.has .debug)
    | .serve =>
      let port := ((g.value? .port).bind fun p => Numeral.readInt? p.toList).getD 3000
      return .serve app ((g.value? .host).getD "127.0.0.1") port (g.has .document)
        (g.value? .config) (g.has .debug)

end Given

/-- Reads the arguments of the program; a misuse comes with the command it belongs to. -/
def readArguments (files : Files) (args : List String) :
    Except (Misuse × Option Command) Invocation :=
  let command := fun (name : String) (rest : List String) =>
    match Command.ofName? name with
    | none => Except.error (Misuse.unknownCommand name, none)
    | some c =>
      match (do (← takeApart c {} none rest).invocation files c) with
      | .ok i => .ok i
      | .error m => .error (m, some c)
  match args with
  | [] => .ok .help
  | "--" :: [] => .ok .help
  | "--" :: name :: rest => command name rest
  | arg :: rest =>
    match arg.toList with
    | '-' :: '-' :: _ =>
      let (spelling, value) := splitValue arg
      if spelling != "--help" then .error (.unknownFlag spelling, none)
      else if value.isSome then .error (.needlessValue spelling, none)
      else .ok .help
    | '-' :: letter :: _ => .error (.unknownFlag (String.ofList ['-', letter]), none)
    | _ => command arg rest

end ApiContract.CommandLine
