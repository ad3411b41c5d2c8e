import ApiContract.Fault
import ApiContract.Number.Numeral
import ApiContract.Text.Encoding
import ApiContract.Text.LetterCase
import ApiContract.Value.Display

/-!
# Settings

The settings of an application and how they are read from a dictionary. Values are taken leniently
where nothing is lost: an integer may be given as a whole number or as its text, a truth value by
several words. All defects are reported: those of the fields in the order of the fields, then the keys
that are no fields in the order in which they are given.
-/

namespace ApiContract

/-- A server in the documentation. -/
structure Server where
  url : String
  description : Option String := none
  deriving DecidableEq, Repr

structure Settings where
  title : String := "API"
  version : String := "1.0.0"
  description : Option String := none
  servers : List Server := []
  /-- The path at which the documentation is served. -/
  openapiPath : String := "/openapi"
  /-- The status of responses to requests that fail validation. -/
  failureStatus : Int := 400
  debug : Bool := false
  logLevel : String := "WARNING"
  tracing : Bool := false
  deriving DecidableEq, Repr

namespace Settings

/-- A value that was read, or the defects that prevent it. -/
abbrev Read (α : Type) := Except (List SettingsDefect) α

private def defect {α : Type} (location kind message : String) : Read α :=
  .error [⟨location, kind, message⟩]

private def violation {α : Type} (location message : String) : Read α :=
  defect location "value_error" ("Value error, " ++ message)

/-- A text, or bytes that are the UTF-8 form of one. -/
def readText (location : String) : Value → Read String
  | .str s => .ok s
  | .bytes bs =>
    match Text.decodeUtf8? bs with
    | some cs => .ok (String.ofList cs)
    | none =>
      defect location "string_unicode"
        "Input should be a valid string, unable to parse raw data as a unicode string"
  | _ => defect location "string_type" "Input should be a valid string"

/-- Digits with single underscores between them, all of ASCII. -/
private def plainDigits? (cs : List Char) : Option (List Char) := do
  let ds ← Numeral.dropUnderscores cs
  if ds.isEmpty || !ds.all Char.isDigit then none else some ds

/-- The integer that a text shows: a sign, digits, and perhaps a point with nothing but zeros behind
it. -/
def integerOfText? (s : String) : Option Int := do
  let (negative, body) := Numeral.takeSign (Text.trimBlanks s.toList)
  let zeros := (body.dropWhile (· != '.')).drop 1
  if !zeros.all (· == '0') then none
  let ds ← plainDigits? (body.takeWhile (· != '.'))
  let n ← Numeral.ofDigits? ds
  return if negative then -(n : Int) else n

/-- The most characters of the text of an integer. -/
def integerTextLimit : Nat := 4300

private def integerTooLarge {α : Type} (location : String) : Read α :=
  defect location "int_parsing_size"
    "Unable to parse input string as an integer, exceeded maximum size"

/-- An integer, a truth value, a whole number or a text that shows an integer. -/
def readInteger (location : String) : Value → Read Int
  | .bool b => .ok (if b then 1 else 0)
  | .int n => .ok n
  | .float x =>
    if !x.isFinite then defect location "finite_number" "Input should be a finite number"
    else
      match x.toInt? with
      | some n => if n.natAbs < Nat.pow 2 63 then .ok n else integerTooLarge location
      | none =>
        defect location "int_from_float"
          "Input should be a valid integer, got a number with a fractional part"
  | .str s =>
    if integerTextLimit < (Text.trimBlanks s.toList).length then integerTooLarge location
    else
      match integerOfText? s with
      | some n => .ok n
      | none =>
        defect location "int_parsing"
          "Input should be a valid integer, unable to parse string as an integer"
  | _ => defect location "int_type" "Input should be a valid integer"

private def trueWords : List String := ["1", "on", "t", "true", "y", "yes"]

private def falseWords : List String := ["0", "off", "f", "false", "n", "no"]

private def unclear {α : Type} (location : String) : Read α :=
  defect location "bool_parsing" "Input should be a valid boolean, unable to interpret input"

private def noTruth {α : Type} (location : String) : Read α :=
  defect location "bool_type" "Input should be a valid boolean"

private def readBit (location : String) (n : Int) : Read Bool :=
  if n = 1 then .ok true else if n = 0 then .ok false else unclear location

/-- A truth value, one or zero, or a word for one in any case. -/
def readTruth (location : String) : Value → Read Bool
  | .bool b => .ok b
  | .int n => if n.natAbs < Nat.pow 2 63 then readBit location n else noTruth location
  | .float x =>
    match x.toInt? with
    | some n => if n.natAbs < Nat.pow 2 63 then readBit location n else noTruth location
    | none => noTruth location
  | .str s =>
    let word := s.toLower
    if trueWords.contains word then .ok true
    else if falseWords.contains word then .ok false
    else unclear location
  | _ => noTruth location

/-- A text or null. -/
def readOptionalText (location : String) : Value → Read (Option String)
  | .null => .ok none
  | v => (readText location v).map some

/-- Two results, or the defects of both. -/
def both {α β : Type} (a : Read α) (b : Read β) : Read (α × β) :=
  match a, b with
  | .ok x, .ok y => .ok (x, y)
  | .error ds, .error es => .error (ds ++ es)
  | .error ds, _ => .error ds
  | _, .error es => .error es

/-- All results, or the defects of all. -/
private def all {α : Type} : List (Read α) → Read (List α)
  | [] => .ok []
  | r :: rs => (both r (all rs)).map fun p => p.1 :: p.2

private def within (location : String) (key : String) : String :=
  if location.isEmpty then key else location ++ "." ++ key

/-- The keys that are none of the fields. -/
private def unknownKeys (location : String) (fields : List String)
    (entries : List (Value × Value)) : Read Unit :=
  let found := entries.filterMap fun e =>
    match e.1 with
    | .str s =>
      if fields.contains s then none
      else some ⟨within location s, "extra_forbidden", "Extra inputs are not permitted"⟩
    | k => some ⟨within location (k.plain.toOption.getD ""), "invalid_key", "Keys should be strings"⟩
  if found.isEmpty then .ok () else .error found

/-- The value of a field that is given, or its default. -/
def field {α : Type} (entries : List (Value × Value)) (location key : String)
    (read : String → Value → Read α) (default : Read α) : Read α :=
  match Value.lookup? (.str key) entries with
  | some v => read (within location key) v
  | none => default

/-- A server. -/
def readServer (location : String) : Value → Read Server
  | .dict entries =>
    let missing := defect (within location "url") "missing" "Field required"
    let fields := both (field entries location "url" readText missing)
      (field entries location "description" readOptionalText (.ok none))
    (both fields (unknownKeys location ["url", "description"] entries)).map fun r =>
      ⟨r.1.1, r.1.2⟩
  | _ =>
    defect location "model_type" "Input should be a valid dictionary or instance of ServerModel"

/-- A list of servers. -/
def readServers (location : String) : Value → Read (List Server)
  | .list xs | .tuple xs | .set xs =>
    all (xs.mapIdx fun i x => readServer (within location (toString i)) x)
  | _ => defect location "list_type" "Input should be a valid list"

/-- A status of client errors. -/
def readFailureStatus (location : String) (v : Value) : Read Int := do
  let n ← readInteger location v
  if 400 ≤ n ∧ n ≤ 499 then return n
  else violation location "failure_status_code must be a 4xx status"

/-- An absolute path. -/
def readPath (location : String) (v : Value) : Read String := do
  let s ← readText location v
  if s.toList.head? == some '/' then return s
  else violation location "openapi_path must start with '/'"

def logLevels : List String := ["DEBUG", "INFO", "WARNING", "ERROR", "CRITICAL"]

/-- A log level in any case. -/
def readLogLevel (location : String) (v : Value) : Read String := do
  let s := Text.toUpper (← readText location v)
  if logLevels.contains s then return s
  else violation location s!"Unknown log level '{s}'"

/-- The names of the fields. -/
def fieldNames : List String :=
  ["title", "version", "description", "servers", "openapi_path", "failure_status_code", "debug",
    "log_level", "tracing"]

/-- The settings that a dictionary gives; what it does not give has its default. -/
def ofEntries (entries : List (Value × Value)) : Except Fault Settings :=
  let standard : Settings := {}
  let get {α : Type} (key : String) (read : String → Value → Read α) (default : α) : Read α :=
    field entries "" key read (.ok default)
  let texts := both (get "title" readText standard.title)
    (both (get "version" readText standard.version)
      (get "description" readOptionalText standard.description))
  let documents := both (get "servers" readServers standard.servers)
    (both (get "openapi_path" readPath standard.openapiPath)
      (get "failure_status_code" readFailureStatus standard.failureStatus))
  let runtime := both (get "debug" readTruth standard.debug)
    (both (get "log_level" readLogLevel standard.logLevel)
      (get "tracing" readTruth standard.tracing))
  let result := both texts (both documents (both runtime (unknownKeys "" fieldNames entries)))
  match result with
  | .ok ((title, version, description), (servers, openapiPath, failureStatus),
      (debug, logLevel, tracing), _) =>
    .ok { title, version, description, servers, openapiPath, failureStatus, debug, logLevel, tracing }
  | .error defects => .error (.settings defects)

/-- A server as a dictionary. -/
def serverValue (s : Server) : Value :=
  .record [("url", .str s.url), ("description", (s.description.map .str).getD .null)]

/-- The settings as a dictionary, in the order of the fields. -/
def toValue (s : Settings) : Value :=
  .record [("title", .str s.title), ("version", .str s.version),
    ("description", (s.description.map .str).getD .null), ("servers", .list (s.servers.map serverValue)),
    ("openapi_path", .str s.openapiPath), ("failure_status_code", .int s.failureStatus),
    ("debug", .bool s.debug), ("log_level", .str s.logLevel), ("tracing", .bool s.tracing)]

end Settings

end ApiContract
