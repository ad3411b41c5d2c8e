import ApiContract.Fault
import ApiContract.Yaml.Cursor

/-!
# Tokens and the state of the scanner

A document is cut into tokens one after the other. Block collections have no brackets of their own:
the scanner keeps the indentation of the open ones and closes them where a line is indented less.
Whether a scalar is a mapping key shows only at the colon behind it, so the scanner remembers where a
key may have started and puts the missing tokens in before it when the colon comes.
-/

namespace ApiContract.Yaml

/-- A line of instructions before a document. -/
inductive Directive where
  | version (major : Nat)
  | tagHandle (handle : String) (replacement : String)
  | reserved

inductive Token where
  | directive (d : Directive)
  | documentStart
  | documentEnd
  | streamEnd
  | blockSequenceStart
  | blockMappingStart
  | blockEnd
  | sequenceOpen
  | sequenceClose
  | mappingOpen
  | mappingClose
  | blockEntry
  | flowEntry
  | key
  | value
  | alias (name : String)
  | anchor (name : String)
  | tag (handle : Option String) (suffix : String)
  | scalar (text : String) (plain : Bool)

/-- Where a mapping key without a mark of its own may have started: the number of its first token and
its place. A required key must turn out to be one. -/
structure SimpleKey where
  token : Nat
  required : Bool
  index : Nat
  line : Nat
  column : Nat

/-- The state between two tokens. -/
structure Scanner where
  cursor : Cursor
  /-- Tokens that are found and not yet taken. -/
  queue : List Token := []
  /-- How many tokens were taken. -/
  taken : Nat := 0
  done : Bool := false
  /-- How many brackets are open. -/
  flowLevel : Int := 0
  /-- The column of the innermost open block collection, and those around it. -/
  indent : Int := -1
  indents : List Int := []
  /-- Whether a key may start here. -/
  keyAllowed : Bool := true
  /-- Possible keys by the number of open brackets. -/
  keys : List (Int × SimpleKey) := []

/-- A step of scanning. -/
abbrev Scan := StateT Scanner (Except Fault)

namespace Scan

def fail {α : Type} : Scan α := throw (.yaml .tokens)

def cursor : Scan Cursor := return (← get).cursor

def peek (ahead : Nat) : Scan Char := return (← get).cursor.peek ahead

def forward (n : Nat) : Scan Unit := modify fun s => { s with cursor := s.cursor.advanceBy n }

/-- Takes the characters up to the first that the test refuses. -/
def takeWhile (p : Char → Bool) : Scan (List Char) := do
  let cs := (← get).cursor.rest.takeWhile p
  forward cs.length
  return cs

/-- Skips the blanks before the next character. -/
def skipBlanks : Scan Unit := do let _ ← takeWhile (· == ' ')

/-- Skips the rest of the line. -/
def skipLine : Scan Unit := do let _ ← takeWhile (!isBreak ·)

/-- Takes a line break: a line feed, or one of the two separators, which are kept. Nothing elsewhere. -/
def takeBreak : Scan (List Char) := do
  let c ← peek 0
  if c == '\r' && (← peek 1) == '\n' then
    forward 2
    return ['\n']
  else if c == '\u2028' || c == '\u2029' then
    forward 1
    return [c]
  else if isBreak c then
    forward 1
    return ['\n']
  else return []

/-- The end of a line that holds nothing more than a comment. -/
def takeEmptyRest : Scan Unit := do
  skipBlanks
  if (← peek 0) == '#' then skipLine
  unless isLineEnd (← peek 0) do fail
  let _ ← takeBreak

def push (t : Token) : Scan Unit := modify fun s => { s with queue := s.queue ++ [t] }

/-- Whether brackets are open. -/
def inFlow : Scan Bool := return (← get).flowLevel != 0

def allowKey (allowed : Bool) : Scan Unit := modify fun s => { s with keyAllowed := allowed }

/-- Forgets the possible key at this level of brackets; a required one may not be forgotten. -/
def dropKey : Scan Unit := do
  let s ← get
  match s.keys.lookup s.flowLevel with
  | some k =>
    if k.required then fail
    set { s with keys := s.keys.filter (·.1 != s.flowLevel) }
  | none => return

/-- Forgets possible keys that have become too long: a key stands in one line and has at most 1024
characters. -/
def dropStaleKeys : Scan Unit := do
  let s ← get
  let c := s.cursor
  let stale := fun (k : SimpleKey) => k.line != c.line || k.index + 1024 < c.index
  if s.keys.any fun k => stale k.2 && k.2.required then fail
  set { s with keys := s.keys.filter fun k => !stale k.2 }

/-- Remembers that a key may start here. -/
def saveKey : Scan Unit := do
  let s ← get
  let c := s.cursor
  let required := s.flowLevel == 0 && s.indent == (c.column : Int)
  if s.keyAllowed then
    dropKey
    modify fun s => { s with
      keys := s.keys ++ [(s.flowLevel, ⟨s.taken + s.queue.length, required, c.index, c.line, c.column⟩)] }

/-- Closes the block collections that are indented more than a column. -/
def closeBlocks (column : Int) : Scan Unit := do
  let s ← get
  if s.flowLevel == 0 then
    let all := s.indent :: s.indents
    let closing := all.takeWhile fun i => decide (column < i)
    match all.drop closing.length with
    | i :: rest =>
      set { s with
        indent := i, indents := rest, queue := s.queue ++ closing.map fun _ => Token.blockEnd }
    | [] => return

/-- Opens a block collection at a column that is indented more than the current one. -/
def openBlock (column : Int) : Scan Bool := do
  let s ← get
  if s.indent < column then
    set { s with indent := column, indents := s.indent :: s.indents }
    return true
  else return false

end Scan

end ApiContract.Yaml
