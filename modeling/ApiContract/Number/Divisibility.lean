import ApiContract.Fault

/-!
# Divisibility

When a number counts as a multiple of a positive step. Two integers are compared exactly, and so are
integers beyond the range of floating-point numbers. All other pairs are compared as floating-point
numbers, with a tolerance for the remainder.

Main statement: `isMultiple_int`, for two integers it is divisibility.
-/

namespace ApiContract.Value.Number

/-- The tolerance of a comparison of floating-point numbers, relative and absolute. -/
def tolerance : Binary64 := .ofRatio false 1 (Nat.pow 10 9)

/-- Whether the order of two numbers is known and the first is not the larger. -/
def atMost (x y : Binary64) : Bool :=
  match x.compare? y with
  | some .lt | some .eq => true
  | _ => false

/-- Whether two numbers are equal up to the tolerance. -/
def isClose (a b : Binary64) : Bool :=
  if a.compare? b == some .eq then true
  else if !a.isFinite || !b.isFinite then false
  else
    let gap := (b.add a.neg).abs
    atMost gap (tolerance.mul b).abs || atMost gap (tolerance.mul a).abs || atMost gap tolerance

/-- Whether the remainder of a number is close to nothing or to a whole step. -/
def remainderIsClose (value step : Binary64) : Bool :=
  let r := value.remainder step
  isClose r (.zero false) || isClose r.abs step

def toFloat (n : Int) : Except Fault Binary64 :=
  match Binary64.ofInt? n with
  | some x => .ok x
  | none => .error .outOfRange

/-- Integers from this one on are compared exactly with every step. -/
def exactFrom : Nat := Nat.pow 2 1023

/-- Whether a number is a multiple of a positive step. -/
def isMultiple : Number → Number → Except Fault Bool
  | .int n, .int step => .ok (n % step == 0)
  | .int n, .float step =>
    if exactFrom ≤ n.natAbs then
      match step.ratio? with
      | some (p, q) => .ok (n * q % p == 0)
      | none => .error .outOfRange
    else do return remainderIsClose (← toFloat n) step
  | .float x, .int step => do return remainderIsClose x (← toFloat step)
  | .float x, .float step => .ok (remainderIsClose x step)

/-- An integer is a multiple of an integer step if and only if the step divides it. -/
theorem isMultiple_int (n step : Int) : isMultiple (.int n) (.int step) = .ok (decide (step ∣ n)) := by
  simp only [isMultiple, Except.ok.injEq]
  rw [Bool.eq_iff_iff, beq_iff_eq, decide_eq_true_iff]
  exact Int.dvd_iff_emod_eq_zero.symm

end ApiContract.Value.Number
