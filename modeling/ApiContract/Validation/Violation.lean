import ApiContract.Format
import ApiContract.Value.Display

/-!
# Violations

What can be wrong with a value, and the words for it.
-/

namespace ApiContract

inductive Violation where
  | wrongType (expected given : String)
  | tooShort (least : Nat)
  | tooLong (most : Nat)
  | patternMismatch (pattern : String)
  | formatMismatch (format : Format)
  | notEnumerated (values : List Value)
  | belowMinimum (bound : Value)
  | aboveMaximum (bound : Value)
  | notAbove (bound : Value)
  | notBelow (bound : Value)
  | notMultiple (step : Value)
  | tooFewItems (least : Nat)
  | tooManyItems (most : Nat)
  | itemsNotUnique
  | missingProperty
  | unexpectedProperty
  | refinement (message : String)

namespace Violation

/-- The words for a violation; a fault if a number in them is too long for decimal text. -/
def message : Violation → Except Fault String
  | wrongType e g => .ok s!"Expected {e}, got {g}"
  | tooShort n => do return "String must be at least " ++ (← intText n) ++ " characters long"
  | tooLong n => do return "String must be at most " ++ (← intText n) ++ " characters long"
  | patternMismatch p => .ok s!"String must match pattern '{p}'"
  | formatMismatch f => .ok s!"Invalid {f.name} format"
  | notEnumerated vs => do return "Value must be one of: " ++ (← Value.displayList vs)
  | belowMinimum v => do return "Value must be >= " ++ (← v.plain)
  | aboveMaximum v => do return "Value must be <= " ++ (← v.plain)
  | notAbove v => do return "Value must be > " ++ (← v.plain)
  | notBelow v => do return "Value must be < " ++ (← v.plain)
  | notMultiple v => do return "Value must be multiple of " ++ (← v.plain)
  | tooFewItems n => do return "Array must have at least " ++ (← intText n) ++ " items"
  | tooManyItems n => do return "Array must have at most " ++ (← intText n) ++ " items"
  | itemsNotUnique => .ok "Array must contain unique items"
  | missingProperty => .ok "Missing required property"
  | unexpectedProperty => .ok "Unexpected property"
  | refinement m => .ok m

end Violation

end ApiContract
