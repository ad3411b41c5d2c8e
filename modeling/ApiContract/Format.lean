import ApiContract.Calendar.IsoText
import ApiContract.Number.Numeral

/-!
# Text formats

The named formats that a text node can ask for.
-/

namespace ApiContract

inductive Format where
  | email
  | uri
  | uuid
  | date
  | time
  | dateTime
  deriving DecidableEq, Repr

namespace Format

def all : List Format := [.email, .uri, .uuid, .date, .time, .dateTime]

def name : Format → String
  | .email => "email"
  | .uri => "uri"
  | .uuid => "uuid"
  | .date => "date"
  | .time => "time"
  | .dateTime => "date-time"

def ofName? (s : String) : Option Format := all.find? (·.name == s)

/-- A point with something before and behind it. -/
private def hasInnerPoint (cs : List Char) : Bool := (cs.drop 1).dropLast.contains '.'

/-- One `@`, something before it, and behind it a point that is neither first nor last. -/
def isEmail (cs : List Char) : Bool :=
  let mailbox := cs.takeWhile (· != '@')
  match cs.drop mailbox.length with
  | [] => false
  | _ :: domain => !mailbox.isEmpty && !domain.contains '@' && hasInnerPoint domain

private def isSchemeChar (c : Char) : Bool := c.isAlphanum || c == '+' || c == '.' || c == '-'

/-- A scheme, a colon and the rest of one line, which a line feed may end. -/
def isUri (cs : List Char) : Bool :=
  match cs with
  | [] => false
  | c :: rest =>
    c.isAlpha &&
    match rest.dropWhile isSchemeChar with
    | ':' :: line =>
      match line.dropWhile (· != '\n') with
      | [] => true
      | [_] => true
      | _ => false
    | _ => false

/-- The text without every occurrence of a word, from left to right. The counter says how many of the
next characters belong to an occurrence. -/
private def withoutFrom (word : List Char) : Nat → List Char → List Char
  | _, [] => []
  | skip + 1, _ :: cs => withoutFrom word skip cs
  | 0, c :: cs =>
    if word.isPrefixOf (c :: cs) then withoutFrom word (word.length - 1) cs
    else c :: withoutFrom word 0 cs

/-- The text without every occurrence of a word. -/
def without (word : String) (cs : List Char) : List Char := withoutFrom word.toList 0 cs

private def isBrace (c : Char) : Bool := c == '\x7b' || c == '\x7d'

/-- Thirty-two characters that read as a hexadecimal number, without the marks `urn:` and `uuid:`, the
braces around and the hyphens within. -/
def isUuid (cs : List Char) : Bool :=
  let bare := without "uuid:" (without "urn:" cs)
  let inner := ((bare.dropWhile isBrace).reverse.dropWhile isBrace).reverse
  let ds := inner.filter (· != '-')
  ds.length == 32 && ((Numeral.readHex? ds).map fun n => decide (0 ≤ n)).getD false

/-- Each `Z` written as the distance zero from universal time. -/
private def spellOutZulu (s : String) : String :=
  String.ofList (s.toList.flatMap fun c => if c == 'Z' then "+00:00".toList else [c])

/-- Whether a text has a format. -/
def accepts (f : Format) (s : String) : Bool :=
  match f with
  | .email => isEmail s.toList
  | .uri => isUri s.toList
  | .uuid => isUuid s.toList
  | .date => IsoText.isDate s
  | .time => IsoText.isTime s
  | .dateTime => IsoText.isDateTime (spellOutZulu s)

theorem ofName?_name (f : Format) : ofName? f.name = some f := by cases f <;> decide

example : accepts .email "a@b.c" = true := by decide +kernel
example : accepts .email "a@.c" = false := by decide +kernel
example : accepts .uri "x:" = true := by decide +kernel
example : accepts .uuid "urn:uuid:12345678-1234-5678-1234-567812345678" = true := by decide +kernel

end Format

end ApiContract
