import ApiContract.Fault
import ApiContract.Number.Numeral
import ApiContract.Number.Shortest
import ApiContract.Text.Quoted

/-!
# Display text of values

The text by which messages show a value: `display` with text in quotes, `plain` with text as it is.
Both fail only on an integer that is too long for decimal text.
-/

namespace ApiContract

/-- Digits padded with zeros to a width. -/
def padded (width n : Nat) : String :=
  let ds := Numeral.digits n
  String.ofList (List.replicate (width - ds.length) '0' ++ ds)

/-- Year, month and day with hyphens. -/
def Date.text (d : Date) : String :=
  padded 4 d.year ++ "-" ++ padded 2 d.month ++ "-" ++ padded 2 d.day

namespace DateTime

private def offsetText (seconds : Int) : String :=
  let n := seconds.natAbs
  (if seconds < 0 then "-" else "+") ++ padded 2 (n / 3600) ++ ":" ++ padded 2 (n / 60 % 60) ++
    (if n % 60 = 0 then "" else ":" ++ padded 2 (n % 60))

/-- Date and time of day with a blank between them, and the offset if there is one. -/
def text (t : DateTime) : String :=
  t.date.text ++ " " ++ padded 2 t.hour ++ ":" ++ padded 2 t.minute ++ ":" ++ padded 2 t.second ++
    (if t.microsecond = 0 then "" else "." ++ padded 6 t.microsecond) ++
    (t.offset.map offsetText).getD ""

private def offsetForm (seconds : Int) : String :=
  if seconds = 0 then "datetime.timezone.utc"
  else
    let days := Int.fdiv seconds 86400
    let rest := seconds - days * 86400
    let parts := (if days = 0 then [] else ["days=" ++ toString days]) ++
      (if rest = 0 then [] else ["seconds=" ++ toString rest])
    "datetime.timezone(datetime.timedelta(" ++ ", ".intercalate parts ++ "))"

/-- The constructor form of a time; seconds and microseconds are left out where they are zero. -/
def form (t : DateTime) : String :=
  let clock :=
    if t.microsecond ≠ 0 then [t.second, t.microsecond]
    else if t.second ≠ 0 then [t.second]
    else []
  let numbers := [t.date.year, t.date.month, t.date.day, t.hour, t.minute] ++ clock
  let fields := numbers.map toString ++ (t.offset.map fun o => ["tzinfo=" ++ offsetForm o]).getD []
  "datetime.datetime(" ++ ", ".intercalate fields ++ ")"

end DateTime

/-- The decimal text of an integer, refused beyond the limit. -/
def intText (n : Int) : Except Fault String :=
  if Numeral.withinLimit n then .ok (String.ofList (Numeral.intChars n)) else .error .digitLimit

namespace Value

mutual
/-- The text of a value with text in quotes. -/
def display : Value → Except Fault String
  | .null => .ok "None"
  | .bool b => .ok (if b then "True" else "False")
  | .int n => intText n
  | .float x => .ok x.text
  | .str s => .ok (Text.quoted s)
  | .bytes bs => .ok (Text.quotedBytes bs)
  | .list xs => do return "[" ++ ", ".intercalate (← displayItems xs) ++ "]"
  | .tuple xs => do
    match ← displayItems xs with
    | [one] => return "(" ++ one ++ ",)"
    | texts => return "(" ++ ", ".intercalate texts ++ ")"
  | .dict es => do return "\x7b" ++ ", ".intercalate (← displayEntries es) ++ "\x7d"
  | .absent => .ok "MISSING"
  | .date d => .ok s!"datetime.date({d.year}, {d.month}, {d.day})"
  | .dateTime t => .ok t.form
  | .set xs => do
    match ← displayItems xs with
    | [] => return "set()"
    | texts => return "\x7b" ++ ", ".intercalate texts ++ "\x7d"
  | .uuid t => .ok ("UUID(" ++ Text.quoted t ++ ")")
termination_by structural v => v

def displayItems : List Value → Except Fault (List String)
  | [] => .ok []
  | x :: xs => do
    let t ← x.display
    return t :: (← displayItems xs)
termination_by structural v => v

def displayEntries : List (Value × Value) → Except Fault (List String)
  | [] => .ok []
  | (k, v) :: es => do
    let key ← k.display
    let value ← v.display
    return (key ++ ": " ++ value) :: (← displayEntries es)
termination_by structural v => v
end

/-- The text of a value with text as it is. -/
def plain : Value → Except Fault String
  | .str s => .ok s
  | .date d => .ok d.text
  | .dateTime t => .ok t.text
  | .uuid t => .ok t
  | v => v.display

/-- The display text of a list with these items. -/
def displayList (items : List Value) : Except Fault String := display (.list items)

example : (display (.tuple [.dict [(.str "k", .int 1)]])).toOption = some "(\x7b'k': 1\x7d,)" := by
  decide +kernel
example : (display (.list [.str "a", .float (.ofInt 1), .bool true, .null])).toOption =
    some "['a', 1.0, True, None]" := by decide +kernel

end Value

end ApiContract
