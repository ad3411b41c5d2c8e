/-!
# Names of components

A component name has letters, digits, underscores, points and hyphens of ASCII, at least one of them,
and may end in a line feed.
-/

namespace ApiContract.ComponentName

/-- The rule, as a regular expression. -/
def pattern : String := "^[A-Za-z0-9_.-]+$"

def isNameChar (c : Char) : Bool := c.isAlphanum || c == '_' || c == '.' || c == '-'

/-- Whether a text is a component name. -/
def accepts (s : String) : Bool :=
  let cs := s.toList
  let body := if cs.getLast? == some '\n' then cs.dropLast else cs
  !body.isEmpty && body.all isNameChar

example : accepts "a.b-C_1" = true := by decide
example : accepts "a b" = false := by decide

end ApiContract.ComponentName
