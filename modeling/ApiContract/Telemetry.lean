import ApiContract.Value.Display

/-!
# Telemetry

An operation can be traced by a span: its start and end, its attributes, and the fault that ends it.
While tracing is off an operation gets an inert span, which leaves no trace. A span that does not
record still has a start and an end.
-/

namespace ApiContract

/-- What a span leaves in a trace. -/
inductive SpanEvent where
  | started (name : String)
  | attribute (key : String) (v : Value)
  | exception (text : String)
  | failed (text : String)
  | ended (name : String)

/-- What an operation reports to. -/
inductive Span where
  | inert
  | live (recording : Bool)
  deriving DecidableEq, Repr

/-- A step of a traced operation; the events before a fault stay. -/
abbrev Tracing := ExceptT Fault (StateM (List SpanEvent))

namespace Span

def isRecording : Span → Bool
  | inert => false
  | live recording => recording

private def emit (e : SpanEvent) : Tracing Unit := modify (· ++ [e])

/-- The value of an attribute: texts, numbers and truth values as they are, other values as text. -/
def attributeValue : Value → Except Fault Value
  | .str s => .ok (.str s)
  | .int n => .ok (.int n)
  | .float x => .ok (.float x)
  | .bool b => .ok (.bool b)
  | v => do return .str (← v.plain)

/-- Sets an attribute. Null is no attribute. -/
def setAttribute (s : Span) (key : String) (v : Value) : Tracing Unit := do
  if s.isRecording && !v.isNull then emit (.attribute key (← attributeValue v))

/-- Records a fault that did not end the operation. -/
def recordException (s : Span) (text : String) : Tracing Unit := do
  if s.isRecording then emit (.exception text)

/-- Runs the body of an operation; a fault is recorded, marks the span as failed and goes on. -/
private def watch {α : Type} (s : Span) (body : Tracing α) : Tracing α :=
  tryCatch body fun f => do
    let text := f.message?.getD ""
    s.recordException text
    emit (.failed text)
    throw f

/-- Runs an operation in a span of its own. -/
def trace {α : Type} (enabled recording : Bool) (name : String) (attributes : List (String × Value))
    (body : Span → Tracing α) : Tracing α :=
  if enabled then do
    let s := live recording
    emit (.started name)
    let result ← ExceptT.lift (ExceptT.run do
      for a in attributes do s.setAttribute a.1 a.2
      s.watch (body s))
    emit (.ended name)
    (result : Except Fault α)
  else body inert

end Span

end ApiContract
