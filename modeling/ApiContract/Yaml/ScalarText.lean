import ApiContract.Number.Numeral
import ApiContract.Text.Encoding
import ApiContract.Yaml.Token

/-!
# Scalars as they are written

Plain scalars, scalars in single and double quotes, and block scalars, which keep their line breaks or
fold them into blanks. A line break within a flow scalar is a blank, and empty lines are line breaks.
-/

namespace ApiContract.Yaml.Scan

/-- The number of hexadecimal digits. -/
private def hexValue? (cs : List Char) : Option Nat :=
  if cs.all fun c => c.isDigit || ('a' ≤ c && c ≤ 'f') || ('A' ≤ c && c ≤ 'F') then
    Numeral.ofBaseDigits? 16 cs
  else none

/-! ### Plain scalars -/

/-- How many characters of a plain scalar stand before the next gap. -/
def plainRun (flow : Bool) : List Char → Nat
  | [] => 0
  | c :: cs =>
    let next := cs.headD endMark
    let ends := isGap c || (flow && ",?[]\x7b\x7d".contains c) ||
      (c == ':' && (isGap next || (flow && ",[]\x7b\x7d".contains next)))
    if ends then 0 else plainRun flow cs + 1

/-- Line breaks and blanks at the beginnings of lines, up to a document marker. `none` if there is
one. -/
private def plainBreaks : Nat → Scan (Option (List Char))
  | 0 => return some []
  | fuel + 1 => do
    let c ← peek 0
    if c == ' ' then
      forward 1
      plainBreaks fuel
    else if isBreak c then
      let here ← takeBreak
      if (← cursor).isSeparator then return none
      return (← plainBreaks fuel).map (here ++ ·)
    else return some []

/-- What is between two runs of a plain scalar; nothing if the scalar ends here. -/
def plainSpaces : Scan (List Char) := do
  let blanks ← takeWhile (· == ' ')
  if isBreak (← peek 0) then
    let first ← takeBreak
    allowKey true
    if (← cursor).isSeparator then return []
    match ← plainBreaks ((← cursor).rest.length + 1) with
    | none => return []
    | some breaks =>
      if first != ['\n'] then return first ++ breaks
      else if breaks.isEmpty then return [' ']
      else return breaks
  else return blanks

/-- The runs of a plain scalar with the spaces between them. -/
private def plainRuns (indent : Int) : Nat → List Char → Scan (List Char)
  | 0, _ => return []
  | fuel + 1, spaces => do
    if (← peek 0) == '#' then return []
    let flow ← inFlow
    let n := plainRun flow (← cursor).rest
    if n = 0 then return []
    allowKey false
    let run := (← cursor).rest.take n
    forward n
    let after ← plainSpaces
    let c ← cursor
    if after.isEmpty || c.peek 0 == '#' || (!flow && (c.column : Int) < indent) then
      return spaces ++ run
    return spaces ++ run ++ (← plainRuns indent fuel after)

/-- A plain scalar. -/
def takePlain : Scan Token := do
  let s ← get
  let text ← plainRuns (s.indent + 1) (s.cursor.rest.length + 1) []
  return .scalar (String.ofList text) true

/-! ### Quoted scalars -/

private def escaped? : Char → Option Char
  | '0' => some '\x00'
  | 'a' => some '\x07'
  | 'b' => some '\x08'
  | 't' => some '\t'
  | '\t' => some '\t'
  | 'n' => some '\n'
  | 'v' => some '\x0b'
  | 'f' => some '\x0c'
  | 'r' => some '\r'
  | 'e' => some '\x1b'
  | ' ' => some ' '
  | '"' => some '"'
  | '\\' => some '\\'
  | '/' => some '/'
  | 'N' => some '\x85'
  | '_' => some '\xa0'
  | 'L' => some '\u2028'
  | 'P' => some '\u2029'
  | _ => none

private def codeLength? : Char → Option Nat
  | 'x' => some 2
  | 'u' => some 4
  | 'U' => some 8
  | _ => none

/-- The breaks after a line break in a quoted scalar, with the blanks around them skipped. -/
private def quotedBreaks : Nat → Scan (List Char)
  | 0 => return []
  | fuel + 1 => do
    if (← cursor).isSeparator then fail
    let _ ← takeWhile fun c => c == ' ' || c == '\t'
    if isBreak (← peek 0) then
      let here ← takeBreak
      return here ++ (← quotedBreaks fuel)
    else return []

/-- What a character code in an escape stands for. -/
private def codeChar (code : Nat) : Scan Char := do
  if 0x10ffff < code then throw (.refused .characterCode)
  else if 0xd800 ≤ code && code ≤ 0xdfff then return Text.replacementChar
  else return Char.ofNat code

/-- An escape in a scalar with double quotes, behind its backslash. -/
private def quotedEscape : Scan (List Char) := do
  let c ← peek 0
  match escaped? c, codeLength? c with
  | some x, _ =>
    forward 1
    return [x]
  | none, some n =>
    let digits := ((← cursor).rest.drop 1).take n
    match if digits.length = n then hexValue? digits else none with
    | some code =>
      let x ← codeChar code
      forward (n + 1)
      return [x]
    | none => fail
  | none, none =>
    if isBreak c then
      let _ ← takeBreak
      quotedBreaks ((← cursor).rest.length + 1)
    else fail

/-- The characters of a quoted scalar up to a gap or the closing quote. -/
private def quotedRun (quote : Char) : Nat → Scan (List Char)
  | 0 => return []
  | fuel + 1 => do
    let run ← takeWhile fun c => !isGap c && c != '\'' && c != '"' && c != '\\'
    let c ← peek 0
    if quote == '\'' && c == '\'' && (← peek 1) == '\'' then
      forward 2
      return run ++ '\'' :: (← quotedRun quote fuel)
    else if c != quote && (c == '\'' || c == '"' || (c == '\\' && quote == '\'')) then
      forward 1
      return run ++ c :: (← quotedRun quote fuel)
    else if c == '\\' then
      forward 1
      let here ← quotedEscape
      return run ++ here ++ (← quotedRun quote fuel)
    else return run

/-- A gap in a quoted scalar. -/
private def quotedGap : Scan (List Char) := do
  let blanks ← takeWhile fun c => c == ' ' || c == '\t'
  let c ← peek 0
  if c == endMark then fail
  else if isBreak c then
    let first ← takeBreak
    let breaks ← quotedBreaks ((← cursor).rest.length + 1)
    if first != ['\n'] then return first ++ breaks
    else if breaks.isEmpty then return [' ']
    else return breaks
  else return blanks

private def quotedRest (quote : Char) : Nat → Scan (List Char)
  | 0 => fail
  | fuel + 1 => do
    if (← peek 0) == quote then return []
    let gap ← quotedGap
    let run ← quotedRun quote ((← cursor).rest.length + 1)
    return gap ++ run ++ (← quotedRest quote fuel)

/-- A scalar in quotes. -/
def takeQuoted : Scan Token := do
  let quote ← peek 0
  forward 1
  let size := (← cursor).rest.length + 1
  let run ← quotedRun quote size
  let text := run ++ (← quotedRest quote (size + 1))
  forward 1
  return .scalar (String.ofList text) false

/-! ### Block scalars -/

/-- What becomes of the line breaks at the end of a block scalar. -/
inductive Chomping where
  | clip
  | strip
  | keep
  deriving DecidableEq

private def chomping? : Char → Option Chomping
  | '+' => some .keep
  | '-' => some .strip
  | _ => none

/-- An indentation indicator, which is a digit other than zero. -/
private def takeIncrement : Scan (Option Nat) := do
  let c ← peek 0
  if c == '0' then fail
  else if c.isDigit then
    forward 1
    return some (c.toNat - '0'.toNat)
  else return none

private def takeChomping : Scan (Option Chomping) := do
  let found := chomping? (← peek 0)
  if found.isSome then forward 1
  return found

/-- The indicators of a block scalar, in either order. -/
private def blockIndicators : Scan (Chomping × Option Nat) := do
  let indicators ← match ← takeChomping with
    | some chomping => do pure (chomping, ← takeIncrement)
    | none => do
      match ← takeIncrement with
      | some n => do pure ((← takeChomping).getD .clip, some n)
      | none => pure (.clip, none)
  let c ← peek 0
  unless c == ' ' || isLineEnd c do fail
  return indicators

/-- The empty lines before a block scalar and the most blanks that any of them begins with. -/
private def blockLead : Nat → Nat → Scan (List Char × Nat)
  | 0, most => return ([], most)
  | fuel + 1, most => do
    let c ← peek 0
    if c == ' ' then
      forward 1
      blockLead fuel (max most (← cursor).column)
    else if isBreak c then
      let here ← takeBreak
      let (breaks, most) ← blockLead fuel most
      return (here ++ breaks, most)
    else return ([], most)

/-- Skips blanks up to a column. -/
private def skipIndent (indent : Nat) : Scan Unit := do
  let c ← cursor
  forward ((c.rest.take (indent - c.column)).takeWhile (· == ' ')).length

/-- The breaks before the next line of a block scalar. -/
private def blockBreaks (indent : Nat) : Nat → Scan (List Char)
  | 0 => return []
  | fuel + 1 => do
    skipIndent indent
    if isBreak (← peek 0) then
      let here ← takeBreak
      return here ++ (← blockBreaks indent fuel)
    else return []

private def startsBlank (c : Char) : Bool := c == ' ' || c == '\t'

/-- The lines of a block scalar: its text without the last break, the last break, and the breaks
behind it. -/
private def blockLines (folded : Bool) (indent : Nat) :
    Nat → List Char → Scan (List Char × List Char × List Char)
  | 0, breaks => return ([], [], breaks)
  | fuel + 1, breaks => do
    let flush := !startsBlank (← peek 0)
    let line ← takeWhile (!isBreak ·)
    let lineBreak ← takeBreak
    let after ← blockBreaks indent ((← cursor).rest.length + 1)
    let c ← cursor
    if c.column = indent && c.peek 0 != endMark then
      let joint :=
        if folded && lineBreak == ['\n'] && flush && !startsBlank (c.peek 0) then
          if after.isEmpty then [' '] else []
        else lineBreak
      let (text, last, tail) ← blockLines folded indent fuel after
      return (breaks ++ line ++ joint ++ text, last, tail)
    else return (breaks ++ line, lineBreak, after)

/-- A block scalar. -/
def takeBlock : Scan Token := do
  let folded := (← peek 0) == '>'
  forward 1
  let (chomping, increment) ← blockIndicators
  takeEmptyRest
  let least := max 1 ((← get).indent + 1).toNat
  let size := (← cursor).rest.length + 1
  let (breaks, indent) ← match increment with
    | none => do
      let (breaks, most) ← blockLead size 0
      pure (breaks, max least most)
    | some n => do
      let indent := least + n - 1
      pure (← blockBreaks indent size, indent)
  let c ← cursor
  let (text, last, tail) ←
    if c.column = indent && c.peek 0 != endMark then blockLines folded indent size breaks
    else pure ([], [], breaks)
  let ending := match chomping with
    | .strip => []
    | .clip => last
    | .keep => last ++ tail
  return .scalar (String.ofList (text ++ ending)) false

end ApiContract.Yaml.Scan
