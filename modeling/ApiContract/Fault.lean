import ApiContract.Target
import ApiContract.Value.Basic

/-!
# Faults

Why an operation gives no result. A value that fails validation is no fault: it is reported as a list
of `ErrorRecord`s. The wording of each fault is in `message?`; faults without a wording of their own
have none there.
-/

namespace ApiContract

/-- One violation of a schema by a value: where it is and what is wrong. -/
structure ErrorRecord where
  path : String
  message : String
  deriving DecidableEq, Repr, Inhabited

/-- What makes a schema, or its definition, malformed. Values are given as their display text. -/
inductive SchemaDefect where
  | unsupportedNode (typeName : String)
  | negativeCount (label given : String)
  | crossedBounds (label low high : String)
  | unknownFormat (name : String)
  | invalidPattern (pattern reason : String)
  | stepNotPositive (given : String)
  | propertyNameNotText (given : String)
  | requiredUndeclared (keys : String)
  | optionalUndeclared (keys : String)
  | refinementWithoutBase
  | predicateNotCallable
  | refinementWithoutMessage
  | definitionNotMapping
  | definitionRefused (reason : String)
  | arrayWithoutItems
  | componentNotSchema (name : String)
  | targetNeedsObject (target : Target)
  deriving DecidableEq, Repr

namespace SchemaDefect

def message : SchemaDefect → String
  | unsupportedNode t => s!"Unsupported schema node: {t}"
  | negativeCount l g => s!"{l} must be a non-negative integer, got {g}"
  | crossedBounds l a b => s!"{l}: minimum {a} is greater than maximum {b}"
  | unknownFormat n => s!"Unknown string format '{n}'"
  | invalidPattern p r => s!"Invalid pattern '{p}': {r}"
  | stepNotPositive g => s!"multiple_of must be a positive number, got {g}"
  | propertyNameNotText g => s!"Property names must be strings, got {g}"
  | requiredUndeclared ks => s!"Required keys are not declared properties: {ks}"
  | optionalUndeclared ks => s!"Optional keys are not declared properties: {ks}"
  | refinementWithoutBase => "Refinement has no base type to refine"
  | predicateNotCallable => "Refinement predicate must be callable"
  | refinementWithoutMessage => "Refinement message must be a non-empty string"
  | definitionNotMapping => "Schema definition must be a mapping"
  | definitionRefused r => s!"Schema definition error: {r}"
  | arrayWithoutItems => "Array schema requires 'items'"
  | componentNotSchema n => s!"Component '{n}' is not a schema node"
  | targetNeedsObject t => s!"Target '{t.name}' requires an object schema"

end SchemaDefect

/-- Why a schema or a response cannot be documented. -/
inductive DocumentationDefect where
  | noMapping (typeName : String)
  | nameTakenTwice (name : String)
  | notSerializable (what given : String)
  | parameterNotObject (method path : String) (target : Target)
  | unsupportedResponse (typeName : String)
  deriving DecidableEq, Repr

namespace DocumentationDefect

def message : DocumentationDefect → String
  | noMapping t => s!"No documentation mapping for schema node {t}"
  | nameTakenTwice n => s!"Component name '{n}' is used by two different schemas"
  | notSerializable w g => s!"{w} {g} is not JSON serializable"
  | parameterNotObject m p t => s!"{m} {p}: target '{t.name}' requires an object schema"
  | unsupportedResponse t => s!"Unsupported response schema {t}"

end DocumentationDefect

/-- Why numbers are no date or time of day. -/
inductive CalendarDefect where
  | year (given : Nat)
  | month
  | day
  | hour
  | minute
  | second
  | offset (seconds : Int)
  deriving DecidableEq, Repr

namespace CalendarDefect

/-- The form of an offset from universal time as a span of days and seconds. -/
private def spanForm (seconds : Int) : String :=
  let days := Int.fdiv seconds 86400
  let rest := seconds - days * 86400
  let parts := (if days = 0 then [] else [s!"days={days}"]) ++
    (if rest = 0 then [] else [s!"seconds={rest}"])
  "datetime.timedelta(" ++ ", ".intercalate parts ++ ")"

def message : CalendarDefect → String
  | year n => s!"year {n} is out of range"
  | month => "month must be in 1..12"
  | day => "day is out of range for month"
  | hour => "hour must be in 0..23"
  | minute => "minute must be in 0..59"
  | second => "second must be in 0..59"
  | offset n =>
    "offset must be a timedelta strictly between -timedelta(hours=24) and timedelta(hours=24), not " ++
      spanForm n ++ "."

end CalendarDefect

/-- An argument, a document or a registration that is refused. -/
inductive Refusal where
  | unknownTarget (given : String)
  | failureStatus (given : String)
  | unknownMethod (method : String)
  | relativePath (path : String)
  | routeTaken (method path : String)
  | handlerNotCallable (method path : String)
  | stageNotCallable (stage method path : String)
  | targetTwice (target : Target) (method path : String)
  | componentName (name : String)
  | componentTaken (name : String)
  | relativePrefix (given : String)
  | unknownFormat (format : String)
  | unknownExtension (suffix path : String)
  | yamlSyntax
  | jsonSyntax (reason : String)
  | settingsNotMapping
  | duplicateParameter (names path : String)
  /-- Flags of a pattern that exclude each other. -/
  | flagConflict
  /-- A text is no integer numeral of a base. -/
  | notInteger (base : Nat) (quoted : String)
  /-- A text is no numeral. -/
  | notNumber (quoted : String)
  /-- A number that is the code of no character. -/
  | characterCode
  /-- Numbers that are no date. -/
  | calendar (defect : CalendarDefect)
  deriving DecidableEq, Repr

namespace Refusal

def message : Refusal → String
  | unknownTarget g =>
    s!"Unknown validation target '{g}'. Use one of: " ++ ", ".intercalate (Target.all.map Target.name)
  | failureStatus g => s!"failure_status must be a 4xx status, got {g}"
  | unknownMethod m => s!"Unsupported HTTP method '{m}'"
  | relativePath p => s!"Route path must start with '/': {p}"
  | routeTaken m p => s!"Route already registered: {m} {p}"
  | handlerNotCallable m p => s!"Handler for {m} {p} is not callable"
  | stageNotCallable s m p => s!"Stage {s} on {m} {p} is not callable"
  | targetTwice t m p => s!"Target '{t.name}' is validated twice on {m} {p}"
  | componentName n => s!"Invalid component name '{n}'"
  | componentTaken n => s!"Component '{n}' is already registered with a different schema"
  | relativePrefix p => s!"Route prefix must start with '/': {p}"
  | unknownFormat f => s!"Unsupported format: {f}. Use one of ['json', 'yaml']"
  | unknownExtension s p =>
    let suffix := if s.isEmpty then "(none)" else s
    s!"Unsupported file extension: {suffix} for {p}. Use one of ['.json', '.yaml', '.yml']"
  | yamlSyntax => "Failed to parse YAML"
  | jsonSyntax r => s!"Failed to parse JSON: {r}"
  | settingsNotMapping => "schemaroute config must be a mapping"
  | duplicateParameter n p => s!"Duplicated param name{n} at path {p}"
  | flagConflict => "ASCII and UNICODE flags are incompatible"
  | notInteger b t => s!"invalid literal for int() with base {b}: {t}"
  | notNumber t => s!"could not convert string to float: {t}"
  | characterCode => "chr() arg not in range(0x110000)"
  | calendar d => d.message

end Refusal

/-- One defect of the settings: where, of which kind, in which words. -/
structure SettingsDefect where
  location : String
  kind : String
  message : String
  deriving DecidableEq, Repr

/-- The phase in which reading a YAML document failed: its characters, its tokens, its grammar, its
references, or the values that its nodes stand for. -/
inductive YamlPhase where
  | characters
  | tokens
  | grammar
  | references
  | values
  deriving DecidableEq, Repr

/-- Why an operation gives no result. -/
inductive Fault where
  /-- A malformed schema; the path leads to the malformed node. -/
  | schema (defect : SchemaDefect) (path : String)
  | documentation (defect : DocumentationDefect)
  /-- A value offered as a response does not match its schema. -/
  | response (errors : List ErrorRecord)
  /-- A registration after serving has begun. -/
  | frozen
  | malformedBody (reason : String)
  /-- Raised by a predicate, a stage, a hook or a handler itself. -/
  | raised (text : String)
  /-- No validated value for a target. -/
  | notValidated (target : Target)
  | fileMissing (what path : String)
  /-- A directory where a file was expected. -/
  | isDirectory
  | refused (cause : Refusal)
  | settings (defects : List SettingsDefect)
  | yaml (phase : YamlPhase)
  /-- An integer is too long to be read from or written as decimal text. -/
  | digitLimit
  /-- A number that is not finite has no JSON text. -/
  | notFinite
  /-- An operation on values of types that do not support it. -/
  | unsupported
  /-- A hook gave a result of a wrong type. -/
  | hookResult (typeName : String)
  /-- An integer beyond the range of floating-point numbers. -/
  | outOfRange
  /-- A node of no kind. -/
  | kindless
  /-- A path or parameter pattern that the application cannot be built with. -/
  | pathPattern
  /-- The request body was consumed before. -/
  | bodyConsumed
  /-- A handle that leads to no route. -/
  | noSuchEntry
  /-- A value without a needed attribute. -/
  | noSuchMember
  /-- A dictionary without a needed key. -/
  | noSuchKey
  /-- A synchronous entry point was called where an event loop is running. -/
  | loopRunning
  /-- A stage that ends the request with a ready HTTP error. -/
  | http (status : Nat) (detail : String)
  deriving DecidableEq, Repr

namespace Fault

/-- A list of at most five records in one line. -/
def summary (errors : List ErrorRecord) : String :=
  "; ".intercalate <| (errors.take 5).map fun e =>
    (if e.path.isEmpty then "<root>" else e.path) ++ ": " ++ e.message

/-- The wording of a fault; `none` for a fault without wording of its own. -/
def message? : Fault → Option String
  | schema d p => some (if p.isEmpty then d.message else d.message ++ s!" (at '{p}')")
  | documentation d => some d.message
  | response es => some (toString es.length ++ " validation error(s): " ++ summary es)
  | frozen => some "Routes cannot be registered after serving has begun"
  | malformedBody r => some r
  | raised t => some t
  | notValidated t => some s!"No validated value for target '{t.name}'"
  | fileMissing w p => some (w ++ p)
  | refused c => some c.message
  | settings _ => some "Invalid schemaroute config"
  | hookResult t => some s!"Validation hook must return Continue, Terminate or None, got {t}"
  | loopRunning => some "Cannot run CLI coroutine while an event loop is already running."
  | isDirectory | yaml _ | digitLimit | notFinite | unsupported | outOfRange | kindless | pathPattern | bodyConsumed
  | noSuchEntry | noSuchMember | noSuchKey | http .. => none

end Fault

end ApiContract
