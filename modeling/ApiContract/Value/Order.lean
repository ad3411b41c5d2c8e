import ApiContract.Fault

/-!
# Order of values

Numbers, texts, bytes, dates and times are ordered among their own kind, lists and tuples by their
first items that differ, sets by inclusion. Values of different kinds are not comparable, and a
number that is no number is below and above nothing.
-/

namespace ApiContract.Value

/-- Order by the first place that differs; a proper beginning comes first. -/
def compareLists {α : Type} (cmp : α → α → Ordering) : List α → List α → Ordering
  | [], [] => .eq
  | [], _ :: _ => .lt
  | _ :: _, [] => .gt
  | x :: xs, y :: ys =>
    match cmp x y with
    | .eq => compareLists cmp xs ys
    | o => o

/-- Order of texts by code points. -/
def compareText (s t : String) : Ordering :=
  compareLists (fun a b => compare a.toNat b.toNat) s.toList t.toList

/-- Order of two sets by inclusion. -/
private def compareSets (xs ys : List Value) : Option Ordering :=
  match xs.all (isIn · ys), ys.all (isIn · xs) with
  | true, true => some .eq
  | true, false => some .lt
  | false, true => some .gt
  | false, false => none

mutual
/-- The order of two values, `none` if neither comes first; a fault if their kinds have no order. -/
def order : Value → Value → Except Fault (Option Ordering)
  | .list xs, .list ys => orderItems xs ys
  | .tuple xs, .tuple ys => orderItems xs ys
  | .str a, .str b => .ok (some (compareText a b))
  | .bytes a, .bytes b => .ok (some (compareLists (fun x y => compare x.toNat y.toNat) a b))
  | .date a, .date b => .ok (some (compare a.ordinal b.ordinal))
  | .dateTime a, .dateTime b =>
    if a.offset.isSome == b.offset.isSome then .ok (some (compare a.instant b.instant))
    else .error .unsupported
  | .set xs, .set ys => .ok (compareSets xs ys)
  | a, b =>
    match a.number?, b.number? with
    | some x, some y => .ok (x.compare? y)
    | _, _ => .error .unsupported
termination_by structural v => v

def orderItems : List Value → List Value → Except Fault (Option Ordering)
  | [], [] => .ok (some .eq)
  | [], _ :: _ => .ok (some .lt)
  | _ :: _, [] => .ok (some .gt)
  | x :: xs, y :: ys => if x.same y then orderItems xs ys else order x y
termination_by structural v => v
end

def isLess (a b : Value) : Except Fault Bool := do return (← order a b) == some .lt

def isGreater (a b : Value) : Except Fault Bool := do return (← order a b) == some .gt

def isAtMost (a b : Value) : Except Fault Bool := do
  let o ← order a b
  return o == some .lt || o == some .eq

def isAtLeast (a b : Value) : Except Fault Bool := do
  let o ← order a b
  return o == some .gt || o == some .eq

end ApiContract.Value
