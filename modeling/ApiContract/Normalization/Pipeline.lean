import ApiContract.Normalization.Clean
import ApiContract.Normalization.Convert
import ApiContract.Normalization.Defaults
import ApiContract.Validation.Check

/-!
# The normalization pipeline

Input is cleaned, filled with defaults, converted and checked, in this order. Only a value that passes
the check leaves the pipeline; on failure there is nothing but the list of violations.
-/

namespace ApiContract

/-- The result of validation. -/
inductive Outcome where
  | success (data : Value)
  | failure (errors : List ErrorRecord)

namespace Outcome

def isSuccess : Outcome → Bool
  | success _ => true
  | failure _ => false

/-- The value that clients receive for a failure. -/
def failurePayload (errors : List ErrorRecord) : Value :=
  .record [("success", .bool false),
    ("errors", .list (errors.map fun e =>
      .record [("path", .str e.path), ("message", .str e.message)]))]

/-- The value that describes a result. -/
def toValue : Outcome → Value
  | success data => .record [("success", .bool true), ("data", data)]
  | failure errors => failurePayload errors

end Outcome

/-- A schema with its validator. -/
structure Pipeline where
  schema : Schema
  validator : Validator

namespace Pipeline

/-- A pipeline for a schema; a fault if the schema is malformed. -/
def ofSchema (s : Schema) : Except Fault Pipeline := do return ⟨s, ← s.compile⟩

/-- The values after each stage of a run, and the trace of the check. -/
structure Run where
  cleaned : Value
  filled : Value
  converted : Value
  trace : Trace

/-- Null in the place of a value that is still absent. -/
def nullIfAbsent (v : Value) : Value := if v.isAbsent then .null else v

/-- Runs the stages. -/
def run (p : Pipeline) (target : Target) (raw : Value) : Except Fault Run := do
  let cleaned ← p.schema.cleanFor (some target) raw
  let filled := nullIfAbsent (p.schema.applyDefaults cleaned)
  let converted ← p.schema.convertFor (some target) filled
  return { cleaned, filled, converted, trace := p.validator.trace converted }

/-- The result of a run. -/
def Run.outcome (r : Run) : Except Fault Outcome := do
  let errors ← r.trace.toExcept
  return if errors.isEmpty then .success r.converted else .failure errors

/-- Normalizes and validates input for a target. -/
def apply (p : Pipeline) (target : Target) (raw : Value) : Except Fault Outcome := do
  (← p.run target raw).outcome

end Pipeline

end ApiContract
