import ApiContract.Number.Numeral
import ApiContract.Text.WordCharacter
import ApiContract.Value.Basic

/-!
# Cookies

A cookie header holds names and values with semicolons between them. Blanks around both are cut; a
value in quotes has escapes: a backslash before a character, or before the three octal digits of its
code.
-/

namespace ApiContract.Http.Cookie

private def isOctal (c : Char) : Bool := '0' ≤ c && c ≤ '7'

/-- A quoted value without its escapes. -/
def unescape : List Char → List Char
  | [] => []
  | '\\' :: a :: b :: c :: cs =>
    if '0' ≤ a && a ≤ '3' && isOctal b && isOctal c then
      Char.ofNat ((Numeral.ofBaseDigits? 8 [a, b, c]).getD 0) :: unescape cs
    else if a == '\n' then '\\' :: unescape (a :: b :: c :: cs)
    else a :: unescape (b :: c :: cs)
  | '\\' :: a :: cs => if a == '\n' then '\\' :: unescape (a :: cs) else a :: unescape cs
  | c :: cs => c :: unescape cs
termination_by cs => cs.length

/-- A value without the quotes around it. -/
def unquote (cs : List Char) : List Char :=
  if 2 ≤ cs.length && cs.head? == some '"' && cs.getLast? == some '"' then
    unescape (cs.drop 1).dropLast
  else cs

/-- The name and the value of one part of a header; a part without an equals sign is a value without
a name. `none` if both are empty. -/
def readPart? (cs : List Char) : Option (String × String) :=
  let (name, value) :=
    if cs.contains '=' then (cs.takeWhile (· != '='), (cs.dropWhile (· != '=')).drop 1)
    else ([], cs)
  let name := Text.trimBlanks name
  let value := Text.trimBlanks value
  if name.isEmpty && value.isEmpty then none
  else some (String.ofList name, String.ofList (unquote value))

/-- The names and values of a header. -/
def readHeader (header : String) : List (String × String) :=
  (header.toList.splitOn ';').filterMap readPart?

/-- The cookies of several headers; the last value of a name counts. -/
def collect (headers : List String) : List (Value × Value) :=
  Value.ofEntries ((headers.flatMap readHeader).map fun c => (.str c.1, .str c.2))

example : readHeader "a=1; b=\"\\054\"" = [("a", "1"), ("b", ",")] := by decide +kernel

end ApiContract.Http.Cookie
