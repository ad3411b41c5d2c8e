import ApiContract.Http.Cookie
import ApiContract.Http.Multipart
import ApiContract.Http.Percent
import ApiContract.Json.Reader
import ApiContract.Target

/-!
# Requests

A request and the raw values of its parts: path parameters, query, headers, cookies, the JSON body and
the form body. The body is a stream: reading a form takes it from the connection, while reading it for
JSON keeps it for later.
-/

namespace ApiContract.Http

structure Request where
  method : String := "GET"
  path : String := "/"
  /-- The query string; each character is one byte. -/
  query : List Char := []
  /-- Names in lower case, with values. -/
  headers : List (String × String) := []
  body : List UInt8 := []

/-- What has become of the body of a request. -/
inductive BodyState where
  | unread
  | kept
  | consumed
  deriving DecidableEq, Repr

/-- Pairs with repeated keys folded: a key that comes once has its value, one that comes again a list of
its values. A value that is a list takes further values itself. -/
def foldPairs (pairs : List (Value × Value)) : List (Value × Value) :=
  pairs.foldl (fun es p =>
    match Value.lookup? p.1 es with
    | none => es ++ [p]
    | some (.list xs) => Value.bind es p.1 (.list (xs ++ [p.2]))
    | some first => Value.bind es p.1 (.list [first, p.2])) []

namespace Request

def textPairs (pairs : List (String × String)) : List (Value × Value) :=
  pairs.map fun p => (.str p.1, .str p.2)

/-- The first value of a header. -/
def header? (r : Request) (name : String) : Option String := r.headers.lookup name

/-- The media type of the body with its options. -/
def contentType (r : Request) : HeaderValue :=
  match r.header? "content-type" with
  | some t => .read t
  | none => { value := "" }

/-- The kinds of body that a form can have. -/
inductive FormKind where
  | multipart
  | encoded
  deriving DecidableEq

def formKind? (r : Request) : Option FormKind :=
  match r.contentType.value with
  | "multipart/form-data" => some .multipart
  | "application/x-www-form-urlencoded" => some .encoded
  | _ => none

/-- The fault of a malformed form: within an application it ends the request. -/
private def malformedForm (inApplication : Bool) (d : Multipart.Defect) : Fault :=
  if inApplication then .http 400 d.message
  else .malformedBody ("Malformed form body: " ++ d.message)

/-- The form in the body; any body of another kind is an empty form. -/
def form (r : Request) (inApplication : Bool) : Except Fault (List (Value × Value)) :=
  match r.formKind? with
  | some .encoded => .ok (textPairs (decodePairs (Text.decodeLatin1 r.body)))
  | some .multipart =>
    match Multipart.readFields r.contentType r.body with
    | .ok fields => .ok (textPairs fields)
    | .error d => .error (malformedForm inApplication d)
  | none => .ok []

/-- The value of the JSON body, absent if the body is empty. -/
def jsonBody (r : Request) : Except Fault Value :=
  if r.body.isEmpty then .ok .absent
  else
    match Json.readBytes? r.body with
    | some v => .ok v
    | none => .error (.malformedBody "Malformed JSON body")

/-- The state of the body after a target has been read. -/
def bodyAfter (r : Request) (state : BodyState) (t : Target) : BodyState :=
  match t, state with
  | .json, .unread => .kept
  | .form, .unread => if r.formKind?.isSome then .consumed else .unread
  | _, state => state

/-- The raw value of a target. -/
def read (r : Request) (params : List (Value × Value)) (state : BodyState) (inApplication : Bool)
    (t : Target) : Except Fault Value :=
  match t with
  | .param => .ok (.dict params)
  | .query => .ok (.dict (foldPairs (textPairs (decodePairs r.query))))
  | .header => .ok (.dict (foldPairs (textPairs r.headers)))
  | .cookie => .ok (.dict (Cookie.collect ((r.headers.filter (·.1 == "cookie")).map (·.2))))
  | .form => do return .dict (foldPairs (← r.form inApplication))
  | .json => if state = .consumed then .error .bodyConsumed else r.jsonBody

end Request

end ApiContract.Http
