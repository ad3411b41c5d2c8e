import ApiContract.Number.Binary64

/-!
# Shortest decimal text

The decimal text of a floating-point number: the fewest digits that read back as the number, and of
those the nearest to it. Digits are searched on ever finer decimal grids, in exact arithmetic: on a
grid only the number's two neighbours have to be tried.

`Layout` holds the decisions of a notation: which decimal exponents are written positionally, how an
exponent is written, and the texts of the numbers that are not finite.
-/

namespace ApiContract

namespace Binary64

/-- Decimal digits and a decimal exponent: the number `digits · 10 ^ exponent`. -/
structure Decimal where
  digits : Nat
  exponent : Int
  deriving DecidableEq, Repr

/-- The interval of quotients that round to a finite positive number, in units of a quarter of its
last place: lower end, centre and upper end, and whether the ends belong to it. -/
def roundingInterval (mantissa : Nat) (exponent : Int) : Nat × Nat × Nat × Bool :=
  let centre := 4 * mantissa
  let low := if mantissa = Nat.pow 2 52 ∧ minExponent < exponent then centre - 1 else centre - 2
  (low, centre, centre + 2, mantissa % 2 = 0)

/-- `⌊log10⌋` of a positive quotient: an estimate from the binary lengths, corrected by one. -/
def decimalExponent (num den : Nat) : Int :=
  let estimate := ((num.log2 : Int) - den.log2) * 30103 / 100000
  let reaches (e : Int) : Bool :=
    if 0 ≤ e then den * Nat.pow 10 e.toNat ≤ num else den ≤ num * Nat.pow 10 (-e).toNat
  if reaches (estimate + 1) then estimate + 1
  else if reaches estimate then estimate
  else estimate - 1

/-- The point of the grid `10 ^ power` that lies in the rounding interval and is nearest to the
number, if there is one. -/
def gridPoint? (mantissa : Nat) (exponent power : Int) : Option Nat :=
  let (low, centre, high, closed) := roundingInterval mantissa exponent
  let (up, down) := scaled 1 (exponent - 2)
  let (gridUp, gridDown) :=
    if 0 ≤ power then (Nat.pow 10 power.toNat, 1) else (1, Nat.pow 10 (-power).toNat)
  let unit := up * gridDown
  let grid := gridUp * down
  let below := centre * unit / grid
  let inside (p : Nat) : Bool :=
    if closed then low * unit ≤ p * grid && p * grid ≤ high * unit
    else low * unit < p * grid && p * grid < high * unit
  let gapBelow := centre * unit - below * grid
  let gapAbove := (below + 1) * grid - centre * unit
  match inside below && 0 < below, inside (below + 1) with
  | true, true =>
    if gapBelow < gapAbove ∨ (gapBelow = gapAbove ∧ below % 2 = 0) then some below
    else some (below + 1)
  | true, false => some below
  | false, true => some (below + 1)
  | false, false => none

/-- The first grid with a point, from one digit to `17`; the exact digits if none has one. -/
def shortest (mantissa : Nat) (exponent : Int) : Decimal :=
  let (num, den) := scaled mantissa exponent
  let leading := decimalExponent num den
  let search := (List.range 17).findSome? fun (k : Nat) =>
    let power := leading - (k : Int)
    (gridPoint? mantissa exponent power).map fun p => (⟨p, power⟩ : Decimal)
  search.getD ⟨mantissa, 0⟩

/-- The decisions of a decimal notation. -/
structure Layout where
  /-- Least and largest decimal exponent of the leading digit written positionally. -/
  positionalFrom : Int
  positionalTo : Int
  /-- Least number of digits of a written exponent. -/
  exponentWidth : Nat
  nanText : String
  infinityText : String

/-- Positional from `0.0001` up to sixteen digits before the point; else one digit, a fraction and a
signed exponent of at least two digits. -/
def plainLayout : Layout where
  positionalFrom := -4
  positionalTo := 15
  exponentWidth := 2
  nanText := "nan"
  infinityText := "inf"

private def zeros (n : Nat) : String := String.ofList (List.replicate n '0')

private def dropTrailingZeros : Nat → Nat → Nat
  | 0, digits => digits
  | fuel + 1, digits =>
    if digits ≠ 0 ∧ digits % 10 = 0 then dropTrailingZeros fuel (digits / 10) else digits

/-- The unsigned text of a positive number from its digits and the decimal exponent of the first. -/
def Layout.digitsText (layout : Layout) (digits : String) (leading : Int) : String :=
  if layout.positionalFrom ≤ leading ∧ leading ≤ layout.positionalTo then
    if leading < 0 then
      "0." ++ zeros (-leading - 1).toNat ++ digits
    else
      let whole := leading.toNat + 1
      if digits.length ≤ whole then digits ++ zeros (whole - digits.length) ++ ".0"
      else
        String.ofList (digits.toList.take whole) ++ "." ++ String.ofList (digits.toList.drop whole)
  else
    let first := String.ofList (digits.toList.take 1)
    let rest := String.ofList (digits.toList.drop 1)
    let magnitude := toString leading.natAbs
    first ++ (if rest.isEmpty then "" else "." ++ rest) ++ "e" ++
      (if leading < 0 then "-" else "+") ++
      zeros (layout.exponentWidth - magnitude.length) ++ magnitude

/-- The text of a number in a layout. -/
def Layout.text (layout : Layout) : Binary64 → String
  | .nan => layout.nanText
  | .infinite s => (if s then "-" else "") ++ layout.infinityText
  | .finite s m e =>
    let sign := if s then "-" else ""
    if m = 0 then sign ++ "0.0"
    else
      let d := shortest m e
      let digits := toString (dropTrailingZeros 20 d.digits)
      sign ++ layout.digitsText digits (d.exponent + ((toString d.digits).length - 1 : Nat))

/-- The text of a number in the plain layout. -/
def text (x : Binary64) : String := plainLayout.text x

example : (ofRatio false 1 10).text = "0.1" := by decide +kernel
example : (ofRatio false 1 100000).text = "1e-05" := by decide +kernel
example : (ofInt (Nat.pow 10 16)).text = "1e+16" := by decide +kernel
example : (ofInt 120).text = "120.0" := by decide +kernel
example : (Binary64.finite false 1 (-1074)).text = "5e-324" := by decide +kernel

end Binary64

end ApiContract
