import ApiContract.Fault
import ApiContract.Number.Numeral
import ApiContract.Schema.Basic

/-!
# Path patterns

The path of a route may hold parameters in braces, each with a name and, behind a colon, the kind of
text it stands for. A pattern is matched against a whole path, from left to right; each parameter takes
as much as it can so that the rest still matches.
-/

namespace ApiContract

/-- The kinds of text that a parameter stands for. -/
inductive Convertor where
  /-- Anything but a slash, at least one character. -/
  | segment
  /-- Anything within a line, also nothing. -/
  | path
  /-- Digits. -/
  | int
  /-- Digits, and perhaps a point and digits. -/
  | float
  | uuid
  deriving DecidableEq, Repr

namespace Convertor

/-- The convertor of a name; a parameter without one stands for a segment. -/
def ofName? : String → Option Convertor
  | "str" => some segment
  | "path" => some path
  | "int" => some int
  | "float" => some float
  | "uuid" => some uuid
  | _ => none

private def downFrom (least n : Nat) : List Nat := ((List.range (n + 1)).drop least).reverse

private def runLength (p : Char → Bool) (cs : List Char) : Nat := (cs.takeWhile p).length

/-- The lengths that a number with an optional fraction may have at the start of a text. -/
private def floatLengths (cs : List Char) : List Nat :=
  (downFrom 1 (runLength Char.isDigit cs)).flatMap fun n =>
    match cs.drop n with
    | '.' :: rest => (downFrom 1 (runLength Char.isDigit rest)).map (n + 1 + ·) ++ [n]
    | _ => [n]

private def isHexadecimal (c : Char) : Bool :=
  c.isDigit || ('a' ≤ c && c ≤ 'f') || ('A' ≤ c && c ≤ 'F')

/-- The length of groups of hexadecimal digits with optional hyphens between them. -/
private def groupsLength? : List Nat → List Char → Option Nat
  | [], _ => some 0
  | [size], cs => if size ≤ runLength isHexadecimal (cs.take size) then some size else none
  | size :: sizes, cs =>
    if size ≤ runLength isHexadecimal (cs.take size) then
      let rest := cs.drop size
      let hyphen := if rest.head? == some '-' then 1 else 0
      (groupsLength? sizes (rest.drop hyphen)).map (size + hyphen + ·)
    else none

/-- The lengths of text that a parameter may take at the start of a path, the preferred one first. -/
def lengths (k : Convertor) (cs : List Char) : List Nat :=
  match k with
  | segment => downFrom 1 (runLength (· != '/') cs)
  | path => downFrom 0 (runLength (· != '\n') cs)
  | int => downFrom 1 (runLength Char.isDigit cs)
  | float => floatLengths cs
  | uuid => (groupsLength? [8, 4, 4, 4, 12] cs).toList

/-- The standard text of an identifier: lower case, with hyphens between its groups. -/
private def uuidText (cs : List Char) : String :=
  let ds := (cs.filter (· != '-')).map Char.toLower
  let group := fun (start size : Nat) => String.ofList ((ds.drop start).take size)
  "-".intercalate [group 0 8, group 8 4, group 12 4, group 16 4, group 20 12]

/-- The value of a parameter. An integer with too many digits has none. -/
def convert (k : Convertor) (cs : List Char) : Except Fault Value :=
  match k with
  | segment | path => .ok (.str (String.ofList cs))
  | int =>
    match Numeral.readInt? cs with
    | some n => .ok (.int n)
    | none => .error .digitLimit
  | float => .ok (.float ((Numeral.readFloat? cs).getD .nan))
  | uuid => .ok (.uuid (uuidText cs))

end Convertor

/-- A part of a path pattern. -/
inductive PathPart where
  | literal (c : Char)
  | parameter (name : String) (convertor : Convertor)
  deriving DecidableEq, Repr

/-- A pattern is a row of parts. -/
abbrev PathPattern := List PathPart

namespace PathPattern

/-- Letters and the underscore, which may start a name. -/
def isNameStart (c : Char) : Bool := c.isAlpha || c == '_'

/-- Letters, digits and the underscore. -/
def isNameChar (c : Char) : Bool := c.isAlphanum || c == '_'

/-- A name at the start of a text, and what follows it. -/
def takeName? (cs : List Char) : Option (String × List Char) :=
  match cs with
  | c :: _ =>
    if isNameStart c then
      some (String.ofList (cs.takeWhile isNameChar), cs.dropWhile isNameChar)
    else none
  | [] => none

/-- The parameter behind an opening brace: its name, the name of its convertor, and how much of the
text it takes, the closing brace included. -/
def takeParameter? (cs : List Char) : Option (String × Option String × Nat) := do
  let (name, rest) ← takeName? cs
  match rest with
  | '}' :: after => return (name, none, cs.length - after.length)
  | ':' :: rest =>
    let (convertor, rest) ← takeName? rest
    match rest with
    | '}' :: after => return (name, some convertor, cs.length - after.length)
    | _ => none
  | _ => none

/-- The parts of a text, of which so many characters belong to a parameter already read. A brace that
opens no parameter is a literal like any other character. -/
def readParts : Nat → List Char → Except Fault PathPattern
  | _, [] => .ok []
  | skip + 1, _ :: cs => readParts skip cs
  | 0, c :: cs =>
    match if c == '{' then takeParameter? cs else none with
    | some (name, convertor, size) =>
      match Convertor.ofName? (convertor.getD "str") with
      | some k => do return .parameter name k :: (← readParts size cs)
      | none => .error .pathPattern
    | none => do return .literal c :: (← readParts 0 cs)

/-- The names of the parameters, from left to right. -/
def parameters (p : PathPattern) : List String :=
  p.filterMap fun
    | .parameter name _ => some name
    | .literal _ => none

/-- The names that come more than once, in order. -/
def repeated (p : PathPattern) : List String :=
  let names := p.parameters
  Schema.sortTexts (names.eraseDups.filter fun n => 1 < names.count n)

/-- Reads a pattern. Every convertor must be known, and no name may come twice. -/
def read (path : String) : Except Fault PathPattern := do
  let p ← readParts 0 path.toList
  match p.repeated with
  | [] => return p
  | [name] => throw (.refused (.duplicateParameter (" " ++ name) path))
  | names => throw (.refused (.duplicateParameter ("s " ++ ", ".intercalate names) path))

private theorem readParts_of_plain {cs : List Char} (h : '{' ∉ cs) :
    readParts 0 cs = .ok (cs.map .literal) := by
  induction cs with
  | nil => rfl
  | cons c cs ih =>
      obtain ⟨hc, hcs⟩ := List.ne_and_not_mem_of_not_mem_cons h
      rw [readParts, if_neg (by simpa using Ne.symm hc), ih hcs]
      rfl

/-- Text without braces stands for itself. -/
theorem read_of_plain {path : String} (h : '{' ∉ path.toList) :
    read path = .ok (path.toList.map .literal) := by
  have hparameters : parameters (path.toList.map .literal) = [] := by
    rw [parameters, List.filterMap_map, List.filterMap_eq_nil_iff]
    exact fun _ _ => rfl
  have hrepeated : repeated (path.toList.map .literal) = [] := by
    rw [repeated, hparameters]
    simp [Schema.sortTexts]
  unfold read
  rw [readParts_of_plain h]
  dsimp only [bind, Except.bind]
  rw [hrepeated]
  rfl

/-- The texts of the parameters if the pattern matches a path. A line feed at the end of the path may
be left over. -/
def texts? : PathPattern → List Char → Option (List (String × Convertor × List Char))
  | [], cs => if cs.isEmpty || cs == ['\n'] then some [] else none
  | .literal c :: parts, cs =>
    match cs with
    | d :: rest => if c == d then texts? parts rest else none
    | [] => none
  | .parameter name k :: parts, cs =>
    (k.lengths cs).findSome? fun n => (texts? parts (cs.drop n)).map ((name, k, cs.take n) :: ·)

theorem texts?_plain (cs : List Char) : texts? (cs.map .literal) cs = some [] := by
  induction cs with
  | nil => rfl
  | cons c cs ih =>
      rw [List.map_cons, texts?, if_pos (by simp)]
      exact ih

/-- The values of the parameters if the pattern matches a path. -/
def match? (p : PathPattern) (path : String) : Except Fault (Option (List (Value × Value))) :=
  match p.texts? path.toList with
  | none => .ok none
  | some found => do
    return some (← found.mapM fun f => return (.str f.1, ← f.2.1.convert f.2.2))

/-- The convertor and the closing brace behind the name of a parameter: how much of the text they
take. -/
private def convertorLength? (cs : List Char) : Option Nat :=
  match cs with
  | ':' :: rest =>
    let text := rest.takeWhile (· != '}')
    if text.isEmpty || text.length == rest.length then none else some (text.length + 1)
  | _ => none

/-- A path without the convertors of its parameters; so many characters are left out first. -/
private def plainFrom : Nat → List Char → List Char
  | _, [] => []
  | skip + 1, _ :: cs => plainFrom skip cs
  | 0, c :: cs =>
    let found : Option (String × Nat) := do
      if c != '{' then none
      let (name, rest) ← takeName? cs
      return (name, name.length + (← convertorLength? rest))
    match found with
    | some (name, skip) => c :: name.toList ++ plainFrom skip cs
    | none => c :: plainFrom 0 cs

/-- A path as the documentation shows it: parameters without their convertors. -/
def documented (path : String) : String := String.ofList (plainFrom 0 path.toList)

example : documented "/a/\x7bid:int\x7d/\x7bx\x7d" = "/a/\x7bid\x7d/\x7bx\x7d" := by decide +kernel

end PathPattern

end ApiContract
