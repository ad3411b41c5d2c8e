import ApiContract.Http.Request
import ApiContract.Http.Response
import ApiContract.Settings.Basic

/-!
# Contexts

A request is handled in a context of its own: the request, the settings of the application, and the
values that have been validated so far. Code of the application is called with the context and cannot
change it; it may take notes, which stay in the order in which they are taken.
-/

namespace ApiContract

/-- The target that a value names. -/
def Target.ofValue (v : Value) : Except Fault Target :=
  let known := match v with
    | .str s => Target.ofName? s
    | _ => none
  match known with
  | some t => .ok t
  | none => do throw (.refused (.unknownTarget (← v.plain)))

namespace Routing

structure Context where
  request : Http.Request
  /-- The values of the parameters in the path. -/
  params : List (Value × Value) := []
  settings : Settings := {}
  /-- The values validated so far, the latest first. -/
  valid : List (Target × Value) := []
  body : Http.BodyState := .unread
  notes : List Value := []

/-- What code of the application does when it is called: the notes it takes, and its result. -/
structure Action (α : Type) where
  notes : List Value := []
  result : Except Fault α

/-- A step of handling a request. What it has done to the context stays, also if it fails. -/
abbrev Handling := ExceptT Fault (StateM Context)

namespace Context

/-- The value validated for a target. -/
def validValue (c : Context) (t : Target) : Except Fault Value :=
  match c.valid.lookup t with
  | some v => .ok v
  | none => .error (.notValidated t)

/-- Keeps a value as the one validated for a target. -/
def setValid (c : Context) (t : Target) (v : Value) : Context := { c with valid := (t, v) :: c.valid }

@[simp] theorem validValue_setValid (c : Context) (t : Target) (v : Value) :
    (c.setValid t v).validValue t = .ok v := by
  simp [validValue, setValid]

/-- A value for one target leaves those of the others as they are. -/
theorem validValue_setValid_of_ne (c : Context) {s t : Target} (v : Value) (h : s ≠ t) :
    (c.setValid t v).validValue s = c.validValue s := by
  have : (s == t) = false := by simpa using h
  simp [validValue, setValid, List.lookup_cons, this]

end Context

/-- Calls code of the application. -/
def call {α : Type} (run : Context → Action α) : Handling α := do
  let action := run (← get)
  modify fun c => { c with notes := c.notes ++ action.notes }
  action.result

/-- Reads the raw value of a target. -/
def readTarget (t : Target) : Handling Value := do
  let c ← get
  set { c with body := c.request.bodyAfter c.body t }
  c.request.read c.params c.body true t

end Routing

end ApiContract
