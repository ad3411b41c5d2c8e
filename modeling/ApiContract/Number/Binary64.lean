/-!
# Binary floating-point numbers

Numbers with 53 significant bits, in exact arithmetic on naturals: a finite number is a sign, a
mantissa and a power of two. Every operation that has to round goes through `Binary64.ofRatio`,
which rounds a quotient of naturals to the nearest number, a tie to the even mantissa.

Main statement: `compareInt` decides the order of a finite number and an integer exactly.
-/

namespace ApiContract

/-- A floating-point number. A finite one is `± mantissa · 2 ^ exponent`; in canonical form the
exponent is at least `-1074` and the mantissa has 53 bits unless the exponent is `-1074`. -/
inductive Binary64 where
  | nan
  | infinite (negative : Bool)
  | finite (negative : Bool) (mantissa : Nat) (exponent : Int)
  deriving DecidableEq, Inhabited

namespace Binary64

/-- The number zero, with its sign. -/
def zero (negative : Bool) : Binary64 := .finite negative 0 (-1074)

/-- The smallest exponent of a finite number. -/
def minExponent : Int := -1074

/-- The largest exponent of a finite number. -/
def maxExponent : Int := 971

/-- `n · 2 ^ e` as a quotient of naturals. -/
def scaled (n : Nat) (e : Int) : Nat × Nat :=
  if 0 ≤ e then (n * Nat.pow 2 e.toNat, 1) else (n, Nat.pow 2 (-e).toNat)

/-- The quotient rounded to the nearest natural, a tie to the even one. -/
def roundHalfEven (num den : Nat) : Nat :=
  let q := num / den
  let r := num % den
  if den < 2 * r then q + 1
  else if 2 * r < den then q
  else if q % 2 = 0 then q else q + 1

/-- The exponent at which `num / den` has a mantissa of 53 bits, or the least exponent if that is
larger. -/
def exponentFor (num den : Nat) : Int :=
  let low : Int := (num.log2 : Int) - den.log2 - 53
  let (n, d) := scaled num (-low)
  let e := if n / (d * den) < Nat.pow 2 53 then low else low + 1
  max e minExponent

/-- The number nearest to `± num / den`, a tie going to the even mantissa; infinite beyond the
largest finite number. -/
def ofRatio (negative : Bool) (num den : Nat) : Binary64 :=
  if num = 0 ∨ den = 0 then zero negative
  else
    let e := exponentFor num den
    let (n, d) := scaled num (-e)
    let m := roundHalfEven n (d * den)
    let (m, e) := if m = Nat.pow 2 53 then (Nat.pow 2 52, e + 1) else (m, e)
    if maxExponent < e then .infinite negative else .finite negative m e

/-- The number nearest to an integer. -/
def ofInt (n : Int) : Binary64 := ofRatio (n < 0) n.natAbs 1

/-- The number nearest to an integer, `none` where it lies beyond the largest finite number. -/
def ofInt? (n : Int) : Option Binary64 :=
  match ofInt n with
  | .infinite _ => none
  | x => some x

def isFinite : Binary64 → Bool
  | .finite .. => true
  | _ => false

def isNan : Binary64 → Bool
  | .nan => true
  | _ => false

def isNegative : Binary64 → Bool
  | .nan => false
  | .infinite s => s
  | .finite s _ _ => s

/-- Whether the number is zero of either sign. -/
def isZero : Binary64 → Bool
  | .finite _ m _ => m == 0
  | _ => false

/-- The exact value of a finite number as an integer over a positive natural. -/
def ratio? : Binary64 → Option (Int × Nat)
  | .finite s m e =>
    let (n, d) := scaled m e
    some (if s then -(n : Int) else n, d)
  | _ => none

/-- The integer that a finite number equals, if there is one. -/
def toInt? (x : Binary64) : Option Int := do
  let (n, d) ← x.ratio?
  if n % (d : Int) = 0 then some (n / (d : Int)) else none

/-- Whether the number is finite and has no fractional part. -/
def isIntegral (x : Binary64) : Bool := x.toInt?.isSome

def neg : Binary64 → Binary64
  | .nan => .nan
  | .infinite s => .infinite !s
  | .finite s m e => .finite (!s) m e

def abs : Binary64 → Binary64
  | .nan => .nan
  | .infinite _ => .infinite false
  | .finite _ m e => .finite false m e

/-- Nearest number to an integer over a positive natural. -/
def ofSignedRatio (n : Int) (d : Nat) : Binary64 := ofRatio (n < 0) n.natAbs d

/-- Sum, rounded to nearest. -/
def add (x y : Binary64) : Binary64 :=
  match x, y with
  | .nan, _ | _, .nan => .nan
  | .infinite a, .infinite b => if a == b then .infinite a else .nan
  | .infinite a, _ => .infinite a
  | _, .infinite b => .infinite b
  | .finite a m _, .finite b n _ =>
    if m = 0 ∧ n = 0 then zero (a && b)
    else match x.ratio?, y.ratio? with
      | some (p, q), some (r, s) => ofSignedRatio (p * s + r * q) (q * s)
      | _, _ => .nan

/-- Product, rounded to nearest. -/
def mul (x y : Binary64) : Binary64 :=
  match x, y with
  | .nan, _ | _, .nan => .nan
  | .infinite a, y => if y.isZero then .nan else .infinite (a != y.isNegative)
  | x, .infinite b => if x.isZero then .nan else .infinite (b != x.isNegative)
  | .finite a m e, .finite b n f =>
    let (num, den) := scaled (m * n) (e + f)
    ofRatio (a != b) num den

/-- The order of two numbers; `none` if one of them is not a number. -/
def compare? (x y : Binary64) : Option Ordering :=
  match x, y with
  | .nan, _ | _, .nan => none
  | .infinite a, .infinite b =>
    some (if a == b then .eq else if a then .lt else .gt)
  | .infinite a, _ => some (if a then .lt else .gt)
  | _, .infinite b => some (if b then .gt else .lt)
  | x, y =>
    match x.ratio?, y.ratio? with
    | some (p, q), some (r, s) => some (compare (p * s) (r * q))
    | _, _ => none

/-- The order of a number and an integer, exactly; `none` if the first is not a number. -/
def compareInt (x : Binary64) (n : Int) : Option Ordering :=
  match x with
  | .nan => none
  | .infinite s => some (if s then .lt else .gt)
  | .finite s m e =>
    let (p, q) := scaled m e
    some (compare (if s then -(p : Int) else p) (n * q))

/-- Remainder of the division that rounds toward zero: it has the sign of the dividend and is exact.
Not a number where the dividend is infinite or the divisor zero. -/
def remainder (x y : Binary64) : Binary64 :=
  match x, y with
  | .nan, _ | _, .nan => .nan
  | .infinite _, _ => .nan
  | x, .infinite _ => x
  | .finite s m e, .finite _ n f =>
    if n = 0 then .nan
    else
      let low := min e f
      let r := m * Nat.pow 2 (e - low).toNat % (n * Nat.pow 2 (f - low).toNat)
      let (num, den) := scaled r low
      ofRatio s num den

theorem scaled_snd_pos (n : Nat) (e : Int) : 0 < (scaled n e).2 := by
  unfold scaled
  split
  · exact Nat.one_pos
  · exact Nat.pow_pos (by decide)

/-- The order of a finite number and an integer is that of their cross products. -/
theorem compareInt_finite (s : Bool) (m : Nat) (e : Int) (n : Int) :
    compareInt (.finite s m e) n =
      some (compare (if s then -((scaled m e).1 : Int) else (scaled m e).1)
        (n * (scaled m e).2)) := rfl

example : ofRatio false 1 10 = .finite false 7205759403792794 (-56) := by decide +kernel
example : ofInt (Nat.pow 2 53 + 1) = .finite false (Nat.pow 2 52) 1 := by decide +kernel
example : ofInt? (Nat.pow 10 400) = none := by decide +kernel
example : remainder (ofInt 7) (ofInt 2) = ofInt 1 := by decide +kernel

end Binary64

end ApiContract
