import ApiContract.Text.LetterCase
import ApiContract.Text.WordCharacter

/-!
# Header values with options

A value such as a media type may be followed by options, each a name and a value behind a semicolon. A
semicolon in quotes divides nothing. Names of options are read without regard to case; a value without
options is read so itself.
-/

namespace ApiContract.Http

/-- A header value and its options. -/
structure HeaderValue where
  value : String
  options : List (String × String) := []

namespace HeaderValue

/-- Divides a text at the semicolons outside of quotes. An escaped quote does not count. -/
private def divide : Bool → List Char → List Char → List (List Char)
  | _, part, [] => [part.reverse]
  | quoted, part, '\\' :: '"' :: cs => divide quoted ('"' :: '\\' :: part) cs
  | quoted, part, c :: cs =>
    if c == ';' && !quoted then part.reverse :: divide false [] cs
    else divide (if c == '"' then !quoted else quoted) (c :: part) cs

/-- Backslashes before backslashes and quotes are dropped. -/
private def unescapeWith (escaped : Char) : List Char → List Char
  | [] => []
  | '\\' :: c :: cs =>
    if c == escaped then c :: unescapeWith escaped cs else '\\' :: unescapeWith escaped (c :: cs)
  | c :: cs => c :: unescapeWith escaped cs

/-- A text without the quotes or angle brackets around it. -/
def unquote (cs : List Char) : List Char :=
  let inner := (cs.drop 1).dropLast
  if cs.length < 2 then cs
  else if cs.head? == some '"' && cs.getLast? == some '"' then
    unescapeWith '"' (unescapeWith '\\' inner)
  else if cs.head? == some '<' && cs.getLast? == some '>' then inner
  else cs

/-- An option: its name and its value, which is empty if there is no equals sign. -/
private def readOption (cs : List Char) : String × String :=
  let name := Text.trimBlanks (cs.takeWhile (· != '='))
  let value := Text.trimBlanks ((cs.dropWhile (· != '=')).drop 1)
  let name := String.ofList name
  (if cs.contains '=' then Text.toLower name else name, String.ofList (unquote value))

/-- Reads a header value. -/
def read (text : String) : HeaderValue :=
  if text.toList.contains ';' then
    match divide false [] text.toList with
    | first :: rest =>
      { value := String.ofList (Text.trimBlanks first), options := rest.map readOption }
    | [] => { value := "" }
  else { value := String.ofList (Text.trimBlanks (Text.toLower text).toList) }

/-- The value of an option, the last one of its name. -/
def option? (h : HeaderValue) (name : String) : Option String := h.options.reverse.lookup name

example : (read "form-data; name=\"a;b\"").options = [("name", "a;b")] := by decide +kernel

end HeaderValue

end ApiContract.Http
