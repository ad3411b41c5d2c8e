import ApiContract.Format
import ApiContract.Regex.Matcher
import ApiContract.Schema.Basic

/-!
# Validators

A validator is a schema that has been found well formed: counts are naturals, patterns are regular
expressions, formats are known, property names are texts, and every refinement has a predicate and a
message. Bounds and enumerated values stay as they were declared, since messages show them.
-/

namespace ApiContract

/-- A pattern as written and as read. -/
structure CompiledPattern where
  source : String
  regex : Regex.Pattern

structure StringRule where
  minLength : Option Nat
  maxLength : Option Nat
  pattern : Option CompiledPattern
  format : Option Format
  enum : Option (List Value)

structure NumberRule where
  /-- Only integers are accepted. -/
  integral : Bool
  minimum : Option Value
  maximum : Option Value
  exclusiveMinimum : Option Value
  exclusiveMaximum : Option Value
  multipleOf : Option Value
  enum : Option (List Value)

structure ArrayRule where
  minItems : Option Nat
  maxItems : Option Nat
  uniqueItems : Bool

structure ObjectRule where
  /-- The required keys, in declaration order. -/
  required : List String
  /-- Keys that are not declared are admitted. -/
  additional : Bool

inductive Validator where
  | string (rule : StringRule)
  | number (rule : NumberRule)
  | boolean
  | array (rule : ArrayRule) (items : Validator)
  | object (rule : ObjectRule) (properties : List (String × Validator))
  | nullable (inner : Validator)
  | refined (predicate : Predicate) (message : String) (base : Validator)

/-- A path with one more step; the first step stands alone. -/
def joinPath (path step : String) : String := if path.isEmpty then step else path ++ "." ++ step

end ApiContract
