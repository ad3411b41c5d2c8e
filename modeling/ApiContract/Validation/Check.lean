import ApiContract.Json.Writer
import ApiContract.Number.Divisibility
import ApiContract.Validation.Compile
import ApiContract.Validation.Violation

/-!
# Checking values

Running a validator on a value gives a trace: the predicate calls and the error records in the order
in which they arise, and the fault that cut it short if there was one. Errors come depth first in
declaration order. At a node all structural violations come before its refinement, and a refinement's
predicate is called only if its base has no violation. Beneath a value of a wrong type nothing is
checked.

A reader who wants only the first records sees a beginning of the trace (`Trace.take`), so whether a
value is valid (`Validator.check`) depends on nothing behind the first record.
-/

namespace ApiContract

/-- A step of checking: a predicate is called on a value, or a violation is reported. -/
inductive Event where
  | call (p : Predicate) (v : Value)
  | record (r : ErrorRecord)

/-- The steps of checking a value, and the fault that ended them early. -/
structure Trace where
  events : List Event
  fault : Option Fault

namespace Trace

def empty : Trace := ⟨[], none⟩

def failed (f : Fault) : Trace := ⟨[], some f⟩

/-- One trace after the other; a fault in the first ends both. -/
def append (a b : Trace) : Trace :=
  match a.fault with
  | some _ => a
  | none => ⟨a.events ++ b.events, b.fault⟩

instance : Append Trace := ⟨append⟩

def recordsOf (events : List Event) : List ErrorRecord :=
  events.filterMap fun
    | .record r => some r
    | .call .. => none

/-- The records of a trace. -/
def records (t : Trace) : List ErrorRecord := recordsOf t.events

/-- The predicate calls of a trace. -/
def calls (t : Trace) : List (Predicate × Value) :=
  t.events.filterMap fun
    | .call p v => some (p, v)
    | .record _ => none

/-- Whether a trace without fault holds no record. -/
def isClean (t : Trace) : Bool := t.fault.isNone && t.records.isEmpty

/-- The events up to and with the `n`-th record; the fault only if the trace has fewer records. -/
def takeEvents (fault : Option Fault) : Nat → List Event → Trace
  | 0, _ => empty
  | _ + 1, [] => ⟨[], fault⟩
  | n + 1, .call p v :: rest =>
    let t := takeEvents fault (n + 1) rest
    ⟨.call p v :: t.events, t.fault⟩
  | n + 1, .record r :: rest =>
    let t := takeEvents fault n rest
    ⟨.record r :: t.events, t.fault⟩

/-- What has happened when `n` records have been asked for. -/
def take (t : Trace) (n : Nat) : Trace := takeEvents t.fault n t.events

/-- All records, or the fault that prevents them. -/
def toExcept (t : Trace) : Except Fault (List ErrorRecord) :=
  match t.fault with
  | some f => .error f
  | none => .ok t.records

/-- One record. -/
def report (path : String) (v : Violation) : Trace :=
  match v.message with
  | .ok m => ⟨[.record ⟨path, m⟩], none⟩
  | .error f => failed f

/-- One record if the condition holds. -/
def reportIf (holds : Bool) (path : String) (v : Violation) : Trace :=
  if holds then report path v else empty

/-- One record if the condition holds, which may itself be impossible to decide. -/
def reportWhen (holds : Except Fault Bool) (path : String) (v : Violation) : Trace :=
  match holds with
  | .ok b => reportIf b path v
  | .error f => failed f

/-- The traces one after the other. -/
def concat : List Trace → Trace
  | [] => empty
  | t :: ts => t ++ concat ts

end Trace

namespace Validator

open Trace

def optional {α : Type} (rule : Option α) (trace : α → Trace) : Trace :=
  match rule with
  | none => .empty
  | some a => trace a

/-- A length against its bounds, the pattern, the format and the enumerated values, in this order. -/
def checkString (rule : StringRule) (s : String) (path : String) : Trace :=
  .concat [
    optional rule.minLength fun n => reportIf (s.length < n) path (.tooShort n),
    optional rule.maxLength fun n => reportIf (n < s.length) path (.tooLong n),
    optional rule.pattern fun p => reportIf (!p.regex.search s) path (.patternMismatch p.source),
    optional rule.format fun f => reportIf (!f.accepts s) path (.formatMismatch f),
    optional rule.enum fun vs => reportIf (!(Value.str s).isIn vs) path (.notEnumerated vs)]

/-- Whether a number is a multiple of a step. -/
def isMultiple (v step : Value) : Except Fault Bool :=
  match v.number?, step.number? with
  | some n, some s => n.isMultiple s
  | _, _ => .error .unsupported

/-- A number against its bounds, the step and the enumerated values, in this order. -/
def checkNumber (rule : NumberRule) (v : Value) (path : String) : Trace :=
  .concat [
    optional rule.minimum fun b => reportWhen (v.isLess b) path (.belowMinimum b),
    optional rule.maximum fun b => reportWhen (v.isGreater b) path (.aboveMaximum b),
    optional rule.exclusiveMinimum fun b => reportWhen (v.isAtMost b) path (.notAbove b),
    optional rule.exclusiveMaximum fun b => reportWhen (v.isAtLeast b) path (.notBelow b),
    optional rule.multipleOf fun s =>
      reportWhen ((isMultiple v s).map (!·)) path (.notMultiple s),
    optional rule.enum fun vs => reportIf (!v.isIn vs) path (.notEnumerated vs)]

/-- Whether a value is of the type that a number rule asks for. -/
def isNumeric (integral : Bool) : Value → Bool
  | .int _ => true
  | .float x => !integral && x.isFinite
  | _ => false

/-- The text under which an item counts as equal to another. -/
def uniqueKey (v : Value) : Except Fault String := Json.write Json.canonicalStyle v

/-- Whether two items have the same key. -/
def hasDuplicate (items : List Value) : Except Fault Bool := do
  let keys ← items.mapM uniqueKey
  return keys.eraseDups.length != keys.length

/-- An array against its bounds and the uniqueness of its items, in this order. -/
def checkItems (rule : ArrayRule) (items : List Value) (path : String) : Trace :=
  .concat [
    optional rule.minItems fun n => reportIf (items.length < n) path (.tooFewItems n),
    optional rule.maxItems fun n => reportIf (n < items.length) path (.tooManyItems n),
    if rule.uniqueItems then reportWhen (hasDuplicate items) path .itemsNotUnique else .empty]

/-- A record for each key that is not declared. -/
def checkUndeclared (names : List String) (entries : List (Value × Value)) (path : String) : Trace :=
  .concat <| entries.map fun (key, _) =>
    let declared := match key with
      | .str s => names.contains s
      | _ => false
    if declared then .empty
    else
      match key.plain with
      | .ok step => report (joinPath path step) .unexpectedProperty
      | .error f => .failed f

/-- The predicate on a value that the base accepts. -/
def checkPredicate (p : Predicate) (message : String) (v : Value) (path : String) : Trace :=
  match p.holds v with
  | .ok true => ⟨[.call p v], none⟩
  | .ok false => ⟨[.call p v], none⟩ ++ report path (.refinement message)
  | .error f => ⟨[.call p v], some f⟩

mutual
/-- The trace of checking a value at a path. -/
def run : Validator → Value → String → Trace
  | .string rule, v, path =>
    match v with
    | .str s => checkString rule s path
    | v => report path (.wrongType "string" v.describe)
  | .number rule, v, path =>
    if isNumeric rule.integral v then checkNumber rule v path
    else report path (.wrongType (if rule.integral then "integer" else "number") v.describe)
  | .boolean, v, path =>
    match v with
    | .bool _ => .empty
    | v => report path (.wrongType "boolean" v.describe)
  | .array rule child, v, path =>
    match v.items? with
    | none => report path (.wrongType "array" v.describe)
    | some items =>
      checkItems rule items path ++
        .concat (items.mapIdx fun i item => child.run item (joinPath path (toString i)))
  | .object rule properties, v, path =>
    match v with
    | .dict entries =>
      runProperties rule properties entries path ++
        if rule.additional then .empty
        else checkUndeclared (properties.map (·.1)) entries path
    | v => report path (.wrongType "object" v.describe)
  | .nullable inner, v, path =>
    match v with
    | .null => .empty
    | v => inner.run v path
  | .refined p message base, v, path =>
    let t := base.run v path
    if t.isClean then t ++ checkPredicate p message v path else t
termination_by structural v => v

/-- The declared properties in order: the value of one that is present is checked, one that is
required and absent is reported. -/
def runProperties (rule : ObjectRule) :
    List (String × Validator) → List (Value × Value) → String → Trace
  | [], _, _ => .empty
  | (name, child) :: rest, entries, path =>
    (match Value.lookup? (.str name) entries with
      | some v => child.run v (joinPath path name)
      | none =>
        reportIf (rule.required.contains name) (joinPath path name) .missingProperty) ++
      runProperties rule rest entries path
termination_by structural ps => ps
end

/-- The trace of checking a value. -/
def trace (validator : Validator) (v : Value) : Trace := validator.run v ""

/-- Every violation of a value, or the fault that prevents finding them. -/
def errors (validator : Validator) (v : Value) : Except Fault (List ErrorRecord) :=
  (validator.trace v).toExcept

/-- Whether a value has no violation. Nothing behind the first record is looked at. -/
def check (validator : Validator) (v : Value) : Except Fault Bool :=
  ((validator.trace v).take 1).toExcept.map (·.isEmpty)

end Validator

end ApiContract
