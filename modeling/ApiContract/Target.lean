/-!
# Validation targets

The parts of a request that a schema can govern. All but the JSON body carry text alone.
-/

namespace ApiContract

inductive Target where
  | param
  | query
  | header
  | cookie
  | json
  | form
  deriving DecidableEq, Repr, Inhabited

namespace Target

/-- Every target, in the order in which messages list them. -/
def all : List Target := [.param, .query, .header, .cookie, .json, .form]

def name : Target → String
  | .param => "param"
  | .query => "query"
  | .header => "header"
  | .cookie => "cookie"
  | .json => "json"
  | .form => "form"

/-- The target of that name. -/
def ofName? (s : String) : Option Target := all.find? (·.name == s)

/-- Whether the values of a target come as text. -/
def isTextual (t : Target) : Bool := t != .json

theorem ofName?_name (t : Target) : ofName? t.name = some t := by
  cases t <;> decide

end Target

end ApiContract
