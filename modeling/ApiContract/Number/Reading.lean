import ApiContract.Fault
import ApiContract.Number.Numeral
import ApiContract.Text.Quoted

/-!
# Reading floating-point numbers

A text as a floating-point number, with a fault where it is none. Blanks at the ends do not count, and the
words for infinity and for no number are read in any case.
-/

namespace ApiContract.Numeral

/-- The floating-point number that a text stands for. -/
def toFloat (text : List Char) : Except Fault Binary64 :=
  let cs := Text.trimBlanks text
  match readFloat? cs with
  | some x => .ok x
  | none =>
    let (negative, body) := takeSign cs
    let word := (String.ofList body).toLower
    if word == "inf" || word == "infinity" then .ok (.infinite negative)
    else if word == "nan" then .ok .nan
    else .error (.refused (.notNumber (Text.quoted (String.ofList text))))

example : (toFloat " -Infinity\n".toList).toOption = some (.infinite true) := by decide +kernel
example : (toFloat "1.5.2".toList).toOption = none := by decide +kernel

end ApiContract.Numeral
