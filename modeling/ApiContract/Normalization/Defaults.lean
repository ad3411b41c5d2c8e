import ApiContract.Schema.Basic

/-!
# Default filling

Puts declared defaults in the place of absent values, at every depth. A default is looked for on the
node itself and then behind its refinements and nullable wrappers, and what is filled in is filled in
turn.
-/

namespace ApiContract.Schema

/-- The outermost default of a node and the wrappers around it. -/
def declaredDefault : Schema → Option Value
  | .refined a _ base => a.default.or base.declaredDefault
  | .nullable a inner => a.default.or inner.declaredDefault
  | s => s.default?

/-- The default in the place of an absent value. -/
def orDefault (s : Schema) (v : Value) : Value :=
  if v.isAbsent then s.declaredDefault.getD .absent else v

mutual
/-- Fills the absent fields of a value. -/
def fill : Schema → Value → Value
  | .refined _ _ base, v => base.fill v
  | .nullable _ inner, v =>
    match v with
    | .null => .null
    | v => inner.fill (inner.orDefault v)
  | .object _ _ properties, v =>
    match v with
    | .dict entries => .dict (fillProperties properties entries)
    | v => v
  | .array _ _ items, v =>
    match v.items? with
    | some xs => .list (xs.map fun x => items.fill (items.orDefault x))
    | none => v
  | _, v => v
termination_by structural s => s

/-- Fills the declared properties one after the other; one that is absent goes to the end if it has a
default. -/
def fillProperties : List (Value × Schema) → List (Value × Value) → List (Value × Value)
  | [], entries => entries
  | (key, s) :: rest, entries =>
    fillProperties rest <|
      if Value.hasKey key entries then
        entries.map fun e => if key.same e.1 then (e.1, s.fill (s.orDefault e.2)) else e
      else
        match s.declaredDefault with
        | none => entries
        | some d => entries ++ [(key, s.fill d)]
termination_by structural ps => ps
end

/-- Fills the absent fields of a value that may itself be absent. -/
def applyDefaults (s : Schema) (v : Value) : Value := s.fill (s.orDefault v)

end ApiContract.Schema
