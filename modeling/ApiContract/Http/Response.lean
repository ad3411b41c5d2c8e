import ApiContract.Json.Writer

/-!
# Responses

What is sent back for a request: a status, a media type and a body. Values are sent as JSON text.
-/

namespace ApiContract.Http

/-- A status as it is given: a number, or a truth value in the place of one. -/
inductive Status where
  | code (n : Int)
  | truth (b : Bool)
  deriving DecidableEq, Repr

namespace Status

def toValue : Status → Value
  | code n => .int n
  | truth b => .bool b

/-- The status that a value gives, if it is an integer or a truth value. -/
def ofValue? : Value → Option Status
  | .int n => some (.code n)
  | .bool b => some (.truth b)
  | _ => none

end Status

structure Response where
  status : Status
  /-- The content type, if one is sent. -/
  mediaType : Option String
  body : String
  deriving DecidableEq, Repr

namespace Response

def jsonType : String := "application/json"

def textType : String := "text/plain; charset=utf-8"

/-- A value as JSON. A value without JSON text cannot be sent. -/
def json (status : Status) (v : Value) : Except Fault Response := do
  return ⟨status, some jsonType, ← Json.write Json.responseStyle v⟩

/-- A text. -/
def plain (status : Int) (text : String) : Response := ⟨.code status, some textType, text⟩

/-- A response without a body. -/
def empty (status : Int) : Response := ⟨.code status, none, ""⟩

/-- The response for what a handler returns: nothing for null, a pair of content and status with that
status, any other value with status 200. -/
def ofValue (v : Value) : Except Fault Response :=
  match v with
  | .null => .ok (empty 204)
  | .tuple [content, status] =>
    match Status.ofValue? status with
    | some s => json s content
    | none => json (.code 200) v
  | v => json (.code 200) v

end Response

end ApiContract.Http
