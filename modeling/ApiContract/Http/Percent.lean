import ApiContract.Number.Numeral
import ApiContract.Text.Encoding

/-!
# Query strings and form bodies

Pairs of names and values with `&` between them. A plus stands for a blank, and percent escapes for the
bytes of UTF-8 text, in which malformed sequences become replacement characters. A pair without an
equals sign has an empty value; empty pairs do not count.
-/

namespace ApiContract.Http

private def isHex (c : Char) : Bool :=
  c.isDigit || ('a' ≤ c && c ≤ 'f') || ('A' ≤ c && c ≤ 'F')

/-- The bytes of ASCII text with percent escapes. A percent sign without two hexadecimal digits behind
it stands for itself. -/
def percentBytes : List Char → List UInt8
  | [] => []
  | '%' :: a :: b :: cs =>
    if isHex a && isHex b then
      ((Numeral.ofBaseDigits? 16 [a, b]).getD 0).toUInt8 :: percentBytes cs
    else '%'.toNat.toUInt8 :: percentBytes (a :: b :: cs)
  | c :: cs => c.toNat.toUInt8 :: percentBytes cs
termination_by cs => cs.length

/-- Decodes a text run by run: runs of ASCII characters have escapes, others stand for themselves. The
run so far is given in reverse. -/
private def decodeRuns : List Char → List Char → List Char
  | run, [] => Text.decodeUtf8Lossy (percentBytes run.reverse)
  | run, c :: cs =>
    if c.toNat < 0x80 then decodeRuns (c :: run) cs
    else Text.decodeUtf8Lossy (percentBytes run.reverse) ++ c :: decodeRuns [] cs

/-- A text with percent escapes and plus signs. -/
def decodeText (cs : List Char) : String :=
  String.ofList (decodeRuns [] (cs.map fun c => if c == '+' then ' ' else c))

/-- The name and the value of a pair. -/
def decodePair (cs : List Char) : String × String :=
  (decodeText (cs.takeWhile (· != '=')), decodeText ((cs.dropWhile (· != '=')).drop 1))

/-- The pairs of a query string or form body. -/
def decodePairs (cs : List Char) : List (String × String) :=
  ((cs.splitOn '&').filter (!·.isEmpty)).map decodePair

example : decodePairs "a=%41+%2B&&b".toList = [("a", "A +"), ("b", "")] := by decide +kernel

end ApiContract.Http
