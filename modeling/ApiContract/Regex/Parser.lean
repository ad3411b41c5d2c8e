import ApiContract.Number.Numeral
import ApiContract.Regex.Basic
import ApiContract.Text.CharacterName
import ApiContract.Text.Quoted

/-!
# Reading regular expressions

A recursive descent over tokens, each a character or a backslash with the character after it. Every
step takes a token, so the length of the pattern bounds the number of steps. An expression that is
refused gives a cause with the place where it was found.

Main definition: `Regex.parse`.
-/

namespace ApiContract.Regex

/-- Why a pattern is no regular expression. -/
inductive SyntaxError where
  /-- A fault in the pattern, and its place if it has one. -/
  | malformed (reason : String) (place : Option Nat)
  /-- A repetition count beyond all limits. -/
  | countTooLarge
  /-- A number with more digits than are read. -/
  | digitLimit
  /-- Flags that exclude each other were switched on for the whole expression. -/
  | flagConflict
  deriving DecidableEq, Repr

/-- The reason of a malformed pattern with its place; line and column are given if the pattern has
several lines. -/
def placedReason (pattern reason : String) (place : Nat) : String :=
  let before := pattern.toList.take place
  let line := before.count '\n' + 1
  let column := (before.reverse.takeWhile (· != '\n')).length + 1
  let placed := s!"{reason} at position {place}"
  if pattern.toList.contains '\n' then s!"{placed} (line {line}, column {column})" else placed

inductive Token where
  | plain (c : Char)
  | escaped (c : Char)
  /-- A backslash at the end of the pattern. -/
  | dangling
  deriving DecidableEq

namespace Token

/-- The tokens of a pattern. -/
def ofChars : List Char → List Token
  | [] => []
  | ['\\'] => [.dangling]
  | '\\' :: c :: rest => .escaped c :: ofChars rest
  | c :: rest => .plain c :: ofChars rest

def size : Token → Nat
  | .escaped _ => 2
  | _ => 1

def text : Token → String
  | .plain c => String.ofList [c]
  | .escaped c => String.ofList ['\\', c]
  | .dangling => "\\"

end Token

/-- What the parser keeps while it reads. -/
structure State where
  /-- The place of the next token. -/
  place : Nat
  rest : List Token
  /-- Flags switched on for the whole expression. -/
  flags : Flags := {}
  /-- The number of groups opened so far. -/
  groupCount : Nat := 0
  names : List (String × Nat) := []
  /-- The widths of the groups that are closed. -/
  widths : List (Nat × Width) := []
  /-- The number of groups at the beginning of the outermost lookbehind. -/
  lookbehindFrom : Option Nat := none
  /-- Group numbers that conditions ask for, with the place of the first. -/
  asked : List (Nat × Nat) := []

abbrev Parser := StateT State (Except SyntaxError)

/-- Fails at a place before the next token. -/
def failBack {α : Type} (reason : String) (back : Nat) : Parser α := do
  let s ← get
  throw (.malformed reason (some (s.place - back)))

def failAt {α : Type} (reason : String) (place : Nat) : Parser α :=
  throw (.malformed reason (some place))

def peek : Parser (Option Token) := return (← get).rest.head?

/-- Refuses a backslash that ends the pattern as soon as it is the next token. -/
def checkNext : Parser Unit := do
  let s ← get
  match s.rest with
  | .dangling :: _ => failAt "bad escape (end of pattern)" s.place
  | _ => pure ()

/-- Takes the next token. -/
def next? : Parser (Option Token) := do
  let s ← get
  match s.rest with
  | [] => return none
  | t :: rest =>
    set { s with place := s.place + t.size, rest := rest }
    checkNext
    return some t

/-- Takes the next token if it is this character. -/
def accept (c : Char) : Parser Bool := do
  match ← peek with
  | some (.plain d) =>
    if c == d then
      let _ ← next?
      return true
    else return false
  | _ => return false

private def isHexDigit (c : Char) : Bool :=
  ('0' ≤ c && c ≤ '9') || ('a' ≤ c && c ≤ 'f') || ('A' ≤ c && c ≤ 'F')

private def isOctalDigit (c : Char) : Bool := '0' ≤ c && c ≤ '7'

private def isDigit (c : Char) : Bool := '0' ≤ c && c ≤ '9'

private def isAsciiLetter (c : Char) : Bool := c.isAlpha

/-- Takes at most so many characters of a class. -/
def takeUpTo (allowed : Char → Bool) : Nat → Parser (List Char)
  | 0 => return []
  | n + 1 => do
    match ← peek with
    | some (.plain c) =>
      if allowed c then
        let _ ← next?
        return c :: (← takeUpTo allowed n)
      else return []
    | _ => return []

/-- Takes the text up to a closing character, which is taken too. -/
def takeUntil (closing : Char) (what : String) : Nat → String → Parser String
  | 0, _ => failBack s!"missing {what}" 0
  | fuel + 1, seen => do
    match ← next? with
    | none =>
      if seen.isEmpty then failBack s!"missing {what}" 0
      else failBack s!"missing {closing}, unterminated name" seen.length
    | some t =>
      if t == .plain closing then
        if seen.isEmpty then failBack s!"missing {what}" 1 else return seen
      else takeUntil closing what fuel (seen ++ t.text)

/-- Whether a text can name a group. -/
def isName (s : String) : Bool :=
  match s.toList with
  | [] => false
  | c :: cs => (c == '_' || Text.isLetter c) && cs.all Text.isWordCharacter

/-- An escape that stands for one character wherever it occurs. -/
private def controlEscape? : Char → Option Nat
  | 'a' => some 7
  | 'b' => some 8
  | 'f' => some 12
  | 'n' => some 10
  | 'r' => some 13
  | 't' => some 9
  | 'v' => some 11
  | '\\' => some 92
  | _ => none

private def classEscape? : Char → Option SetItem
  | 'd' => some (.charClass false .digit)
  | 'D' => some (.charClass true .digit)
  | 's' => some (.charClass false .space)
  | 'S' => some (.charClass true .space)
  | 'w' => some (.charClass false .word)
  | 'W' => some (.charClass true .word)
  | _ => none

private def anchorEscape? : Char → Option Anchor
  | 'A' => some .textStart
  | 'Z' => some .textEnd
  | 'b' => some .wordBoundary
  | 'B' => some .noWordBoundary
  | _ => none

private def radixValue (base : Nat) (ds : List Char) : Nat := (Numeral.ofBaseDigits? base ds).getD 0

/-- An escape of a fixed number of hexadecimal digits. -/
private def hexEscape (letter : Char) (size : Nat) : Parser Nat := do
  let ds ← takeUpTo isHexDigit size
  let text := String.ofList ('\\' :: letter :: ds)
  if ds.length != size then failBack s!"incomplete escape {text}" text.length
  else
    let code := radixValue 16 ds
    if 0x110000 ≤ code then failBack s!"bad escape {text}" text.length else return code

/-- The character of an escape by its name. -/
private def namedEscape (fuel : Nat) : Parser Nat := do
  if !(← accept '\x7b') then failBack "missing \x7b" 0
  else
    let name ← takeUntil '\x7d' "character name" fuel ""
    match Text.characterNamed? name with
    | some code => return code
    | none => failBack s!"undefined character name {Text.quoted name}" (name.length + 4)

private def octalOverflow {α : Type} (text : String) : Parser α :=
  failBack s!"octal escape value {text} outside of range 0-0o377" text.length

/-- An escape inside a character set. -/
private def setEscape (c : Char) (fuel : Nat) : Parser SetItem := do
  let text := String.ofList ['\\', c]
  match controlEscape? c, classEscape? c with
  | some code, _ => return .single code
  | none, some item => return item
  | none, none =>
    if c == 'x' then return .single (← hexEscape 'x' 2)
    else if c == 'u' then return .single (← hexEscape 'u' 4)
    else if c == 'U' then return .single (← hexEscape 'U' 8)
    else if c == 'N' then return .single (← namedEscape fuel)
    else if isOctalDigit c then
      let ds := c :: (← takeUpTo isOctalDigit 2)
      let code := radixValue 8 ds
      if 0o377 < code then octalOverflow (String.ofList ('\\' :: ds)) else return .single code
    else if isDigit c || isAsciiLetter c then failBack s!"bad escape {text}" 2
    else return .single c.toNat

private def isClosed (s : State) (index : Nat) : Bool := (s.widths.lookup index).isSome

/-- Refuses, inside a lookbehind, a reference to a group that begins there. -/
private def checkLookbehind (index : Nat) : Parser Unit := do
  let s ← get
  match s.lookbehindFrom with
  | none => pure ()
  | some count =>
    if !isClosed s index then failBack "cannot refer to an open group" 0
    else if count < index then
      failBack "cannot refer to group defined in the same lookbehind subpattern" 0
    else pure ()

/-- A reference to a group by number; `text` is the escape read so far. -/
private def numberedReference (text : List Char) : Parser Node := do
  let index := radixValue 10 (text.drop 1)
  let s ← get
  if s.groupCount < index then
    failBack s!"invalid group reference {index}" (text.length - 1)
  else if !isClosed s index then failBack "cannot refer to an open group" text.length
  else
    checkLookbehind index
    return .backref index

/-- An escape outside of character sets. -/
private def nodeEscape (c : Char) (fuel : Nat) : Parser Node := do
  let text := String.ofList ['\\', c]
  match anchorEscape? c, classEscape? c, controlEscape? c with
  | some a, _, _ => return .anchor a
  | none, some item, _ => return .set false [item]
  | none, none, some code => return .char false code
  | none, none, none =>
    if c == 'x' then return .char false (← hexEscape 'x' 2)
    else if c == 'u' then return .char false (← hexEscape 'u' 4)
    else if c == 'U' then return .char false (← hexEscape 'U' 8)
    else if c == 'N' then return .char false (← namedEscape fuel)
    else if c == '0' then
      return .char false (radixValue 8 (c :: (← takeUpTo isOctalDigit 2)))
    else if isDigit c then
      match ← takeUpTo isDigit 1 with
      | [] => numberedReference ['\\', c]
      | d :: _ =>
        if isOctalDigit c && isOctalDigit d then
          match ← takeUpTo isOctalDigit 1 with
          | [] => numberedReference ['\\', c, d]
          | e :: _ =>
            let code := radixValue 8 [c, d, e]
            if 0o377 < code then octalOverflow (String.ofList ['\\', c, d, e])
            else return .char false code
        else numberedReference ['\\', c, d]
    else if isAsciiLetter c then failBack s!"bad escape {text}" 2
    else return .char false c.toNat

/-- The members of a character set up to its closing bracket. `here` is the place of the opening one;
the members read so far are in reverse. -/
private def parseSet (here : Nat) : Nat → List SetItem → Parser (List SetItem)
  | 0, _ => failAt "unterminated character set" here
  | fuel + 1, seen => do
    match ← next? with
    | none => failAt "unterminated character set" here
    | some first =>
      if first == .plain ']' && !seen.isEmpty then return seen.reverse
      else
        let low ← match first with
          | .escaped c => setEscape c fuel
          | .plain c => pure (.single c.toNat)
          | .dangling => pure (.single 92)
        if ← accept '-' then
          match ← next? with
          | none => failAt "unterminated character set" here
          | some (.plain ']') => return (SetItem.single 45 :: low :: seen).reverse
          | some second =>
            let high ← match second with
              | .escaped c => setEscape c fuel
              | .plain c => pure (.single c.toNat)
              | .dangling => pure (.single 92)
            let bad : Parser (List SetItem) :=
              failBack s!"bad character range {first.text}-{second.text}"
                (first.size + 1 + second.size)
            match low, high with
            | .single a, .single b => if b < a then bad else parseSet here fuel (.range a b :: seen)
            | _, _ => bad
        else parseSet here fuel (low :: seen)

private def flagOf? : Char → Option Flags
  | 'i' => some { ignoreCase := true }
  | 'm' => some { multiline := true }
  | 's' => some { dotAll := true }
  | 'x' => some { verbose := true }
  | 'a' => some { ascii := true }
  | 't' => some { template := true }
  | 'u' => some { unicode := true }
  | _ => none

private def charOf : Token → Char
  | .plain c => c
  | _ => '\\'

private def isFlagLetter (t : Token) : Bool :=
  match t with
  | .plain c => c == 'L' || (flagOf? c).isSome
  | _ => false

/-- `unknown flag` for a letter, else the other reason. -/
private def flagReason (t : Token) (otherwise : String) : String :=
  if t.text.toList.all Text.isLetter then "unknown flag" else otherwise

/-- The flags that are switched on, and the character that ends their list. -/
private def parseFlagsOn : Nat → Flags → Token → Parser (Flags × Token)
  | 0, on, t => return (on, t)
  | fuel + 1, on, t => do
    match flagOf? (charOf t) with
    | none => failBack "bad inline flags: cannot use 'L' flag with a str pattern" 0
    | some flag =>
      let on := on.union flag
      if on.ascii && on.unicode then
        failBack "bad inline flags: flags 'a', 'u' and 'L' are incompatible" 0
      else
        match ← next? with
        | none => failBack "missing -, : or )" 0
        | some t =>
          if t == .plain ')' || t == .plain '-' || t == .plain ':' then return (on, t)
          else if isFlagLetter t then parseFlagsOn fuel on t
          else failBack (flagReason t "missing -, : or )") t.size

/-- The flags that are switched off, up to the colon. -/
private def parseFlagsOff : Nat → Flags → Token → Parser Flags
  | 0, off, _ => return off
  | fuel + 1, off, t => do
    let typeFlag := "bad inline flags: cannot turn off flags 'a', 'u' and 'L'"
    match flagOf? (charOf t) with
    | none => failBack typeFlag 0
    | some flag =>
      if flag.ascii || flag.unicode then failBack typeFlag 0
      else
        let off := off.union flag
        match ← next? with
        | none => failBack "missing :" 0
        | some t =>
          if t == .plain ':' then return off
          else if isFlagLetter t then parseFlagsOff fuel off t
          else failBack (flagReason t "missing :") t.size

/-- The flags of a group: those switched on and off inside it, or `none` if they were switched on for
the whole expression. -/
private def parseFlags (fuel : Nat) (first : Token) : Parser (Option (Flags × Flags)) := do
  let (on, ending) ←
    if first == .plain '-' then pure ({}, first) else parseFlagsOn fuel {} first
  if ending == .plain ')' then
    modify fun s => { s with flags := s.flags.union on }
    return none
  else if on.template then failBack "bad inline flags: cannot turn on global flag" 1
  else
    let off ←
      if ending == .plain '-' then
        match ← next? with
        | none => failBack "missing flag" 0
        | some t =>
          if isFlagLetter t then parseFlagsOff fuel {} t
          else failBack (flagReason t "missing flag") t.size
      else pure {}
    if off.template then failBack "bad inline flags: cannot turn off global flag" 1
    else if on.meets off then failBack "bad inline flags: flag turned on and off" 1
    else return some (on, off)

/-- The largest repetition count is below this. -/
private def countLimit : Nat := 4294967295

private def readCount (ds : List Char) : Parser Nat := do
  if Numeral.digitLimit < ds.length then throw .digitLimit
  let n := radixValue 10 ds
  if countLimit ≤ n then throw .countTooLarge
  return n

/-- Least and greatest number of rounds of a repetition in braces, `none` if the braces hold no
bounds and the opening one stands for itself. `here` is the place after it. -/
private def parseBounds (here size : Nat) : Parser (Option (Nat × Option Nat)) := do
  let back ← get
  if (← peek) == some (.plain '\x7d') then return none
  else
    let low ← takeUpTo isDigit size
    let comma ← accept ','
    let high ← if comma then takeUpTo isDigit size else pure low
    if !(← accept '\x7d') then
      set back
      return none
    else
      let least ← if low.isEmpty then pure 0 else readCount low
      if high.isEmpty then return some (least, none)
      else
        let most ← readCount high
        if most < least then failAt "min repeat greater than max repeat" here
        else return some (least, some most)

private def isLoop : Node → Bool
  | .loop .. => true
  | _ => false

private def isAnchor : Node → Bool
  | .anchor _ => true
  | _ => false

/-- A node of an expression that is being read: a group in parentheses is marked, because a
repetition in parentheses may be repeated again. -/
structure Item where
  node : Node
  enclosed : Bool := false

/-- Opens a group, under a name if it has one. -/
private def openGroup (name : Option String) : Parser Nat := do
  let s ← get
  let index := s.groupCount + 1
  set { s with groupCount := index }
  match name with
  | none => return index
  | some n =>
    match s.names.lookup n with
    | some earlier =>
      failBack
        s!"redefinition of group name {Text.quoted n} as group {index}; was group {earlier}"
        (n.length + 1)
    | none =>
      modify fun s => { s with names := (n, index) :: s.names }
      return index

private def checkName (name : String) : Parser Unit := do
  if isName name then pure ()
  else failBack s!"bad character in group name {Text.quoted name}" (name.length + 1)

/-- The group that a condition asks for. -/
private def conditionIndex (name : String) : Parser Nat := do
  if isName name then
    match (← get).names.lookup name with
    | some index => return index
    | none => failBack s!"unknown group name {Text.quoted name}" (name.length + 1)
  else
    match Numeral.readInt? name.toList with
    | some (.ofNat index) =>
      if index = 0 then failBack "bad group number" (name.length + 1)
      else if 1073741823 ≤ index then
        failBack s!"invalid group reference {index}" (name.length + 1)
      else
        modify fun s =>
          if (s.asked.lookup index).isSome then s
          else { s with asked := s.asked ++ [(index, s.place - name.length - 1)] }
        return index
    | _ => failBack s!"bad character in group name {Text.quoted name}" (name.length + 1)

/-- Skips a comment up to the end of its line. -/
private def skipLine : Nat → Parser Unit
  | 0 => pure ()
  | fuel + 1 => do
    match ← next? with
    | none | some (.plain '\n') => pure ()
    | some _ => skipLine fuel

/-- Skips a comment in parentheses, which began at `start`. -/
private def skipComment (start : Nat) : Nat → Parser Unit
  | 0 => pure ()
  | fuel + 1 => do
    if (← peek).isNone then failAt "missing ), unterminated comment" start
    else if (← next?) == some (.plain ')') then pure ()
    else skipComment start fuel

private def isPatternBlank (c : Char) : Bool :=
  c == ' ' || c == '\t' || c == '\n' || c == '\r' || c == '\x0b' || c == '\x0c'

private def closeParenthesis (start : Nat) : Parser Unit := do
  if !(← accept ')') then failAt "missing ), unterminated subpattern" start

/-- The bounds of a repetition sign, `none` if an opening brace stands for itself. -/
private def bounds (sign : Char) (size : Nat) : Parser (Option (Nat × Option Nat)) := do
  match sign with
  | '?' => return some (0, some 1)
  | '*' => return some (0, none)
  | '+' => return some (1, none)
  | _ => parseBounds (← get).place size

/-- The sign behind a repetition that says how it chooses. -/
private def parseGreed : Parser Greed := do
  if ← accept '?' then return .lazy
  if ← accept '+' then return .possessive
  return .greedy

/-- Repeats the last item; `here` is the place of the repetition sign. -/
private def repeatLast (here : Nat) (least : Nat) (most : Option Nat) :
    List Item → Parser (List Item)
  | [] => failAt "nothing to repeat" here
  | last :: seen => do
    if isAnchor last.node && !last.enclosed then failAt "nothing to repeat" here
    else if isLoop last.node && !last.enclosed then failAt "multiple repeat" here
    else
      return { node := .loop (← parseGreed) least most last.node } :: seen

mutual
/-- Alternatives up to a closing parenthesis or the end. -/
private def parseAlternatives : Nat → Bool → Bool → Parser Node
  | 0, _, _ => return .empty
  | fuel + 1, verbose, outermost => do
    let first ← parseSequence fuel verbose outermost []
    if ← accept '|' then
      let flags := (← get).flags
      let verbose := if outermost then flags.verbose else verbose
      return .alt first (← parseMore fuel verbose outermost)
    else return first

/-- The alternatives after the first. -/
private def parseMore : Nat → Bool → Bool → Parser Node
  | 0, _, _ => return .empty
  | fuel + 1, verbose, outermost => do
    let first ← parseSequence fuel verbose false []
    if ← accept '|' then
      let flags := (← get).flags
      let verbose := if outermost then flags.verbose else verbose
      return .alt first (← parseMore fuel verbose outermost)
    else return first

/-- A sequence of items, those read so far given in reverse. At the `beginning` of the expression
flags may be switched on for all of it. -/
private def parseSequence : Nat → Bool → Bool → List Item → Parser Node
  | 0, _, _, seen => return .ofList (seen.reverse.map Item.node)
  | fuel + 1, verbose, beginning, seen => do
    let here := (← get).place
    match ← peek with
    | none | some (.plain '|') | some (.plain ')') =>
      return .ofList (seen.reverse.map Item.node)
    | some t =>
      let _ ← next?
      match t with
      | .dangling => return .ofList (seen.reverse.map Item.node)
      | .escaped c =>
        let node ← nodeEscape c fuel
        parseSequence fuel verbose beginning ({ node } :: seen)
      | .plain c =>
        if verbose && isPatternBlank c then parseSequence fuel verbose beginning seen
        else if verbose && c == '#' then
          skipLine fuel
          parseSequence fuel verbose beginning seen
        else if c == '[' then
          let negated ← accept '^'
          let items ← parseSet here fuel []
          let node := match items.eraseDups with
            | [.single code] => Node.char negated code
            | items => .set negated items
          parseSequence fuel verbose beginning ({ node } :: seen)
        else if c == '?' || c == '*' || c == '+' || c == '\x7b' then
          match ← bounds c fuel with
          | none => parseSequence fuel verbose beginning ({ node := .char false c.toNat } :: seen)
          | some (least, most) =>
            parseSequence fuel verbose beginning (← repeatLast here least most seen)
        else if c == '.' then parseSequence fuel verbose beginning ({ node := .any } :: seen)
        else if c == '^' then
          parseSequence fuel verbose beginning ({ node := .anchor .lineStart } :: seen)
        else if c == '$' then
          parseSequence fuel verbose beginning ({ node := .anchor .lineEnd } :: seen)
        else if c == '(' then
          if ← accept '?' then
            match ← parseExtension fuel verbose here (beginning && seen.isEmpty) with
            | none =>
              let flags := (← get).flags
              let verbose := verbose || (beginning && flags.verbose)
              parseSequence fuel verbose beginning seen
            | some item => parseSequence fuel verbose beginning (item :: seen)
          else
            let index ← openGroup none
            let item ← parseGroup fuel verbose here (some index)
            parseSequence fuel verbose beginning (item :: seen)
        else
          parseSequence fuel verbose beginning ({ node := .char false c.toNat } :: seen)

/-- The body of a group, up to and with its closing parenthesis. -/
private def parseGroup : Nat → Bool → Nat → Option Nat → Parser Item
  | 0, _, _, _ => return { node := .empty }
  | fuel + 1, verbose, start, index => do
    let body ← parseAlternatives fuel verbose false
    closeParenthesis start
    match index with
    | none => return { node := body, enclosed := true }
    | some i =>
      modify fun s => { s with widths := (i, body.width s.widths) :: s.widths }
      return { node := .group i body, enclosed := true }

/-- What follows an opening parenthesis with a question mark, which began at `start`; `none` if it
adds nothing to the sequence. -/
private def parseExtension : Nat → Bool → Nat → Bool → Parser (Option Item)
  | 0, _, _, _ => return none
  | fuel + 1, verbose, start, beginning => do
    match ← next? with
    | none => failBack "unexpected end of pattern" 0
    | some (.plain 'P') =>
      if ← accept '<' then
        let name ← takeUntil '>' "group name" fuel ""
        checkName name
        let index ← openGroup (some name)
        return some (← parseGroup fuel verbose start (some index))
      else if ← accept '=' then
        let name ← takeUntil ')' "group name" fuel ""
        checkName name
        let s ← get
        match s.names.lookup name with
        | none => failBack s!"unknown group name {Text.quoted name}" (name.length + 1)
        | some index =>
          if !isClosed s index then failBack "cannot refer to an open group" (name.length + 1)
          else
            checkLookbehind index
            return some { node := .backref index }
      else
        match ← next? with
        | none => failBack "unexpected end of pattern" 0
        | some t => failBack s!"unknown extension ?P{t.text}" (t.size + 2)
    | some (.plain ':') => return some (← parseGroup fuel verbose start none)
    | some (.plain '#') =>
      skipComment start fuel
      return none
    | some (.plain '=') => return some (← parseLook fuel verbose start false false)
    | some (.plain '!') => return some (← parseLook fuel verbose start false true)
    | some (.plain '<') =>
      match ← next? with
      | none => failBack "unexpected end of pattern" 0
      | some (.plain '=') => return some (← parseLook fuel verbose start true false)
      | some (.plain '!') => return some (← parseLook fuel verbose start true true)
      | some t => failBack s!"unknown extension ?<{t.text}" (t.size + 2)
    | some (.plain '(') =>
      let name ← takeUntil ')' "group name" fuel ""
      let index ← conditionIndex name
      checkLookbehind index
      let yes ← parseSequence fuel verbose false []
      let no ←
        if ← accept '|' then
          let no ← parseSequence fuel verbose false []
          if (← peek) == some (.plain '|') then
            failBack "conditional backref with more than two branches" 0
          else pure no
        else pure .empty
      closeParenthesis start
      return some { node := .condition index yes no }
    | some (.plain '>') =>
      let item ← parseGroup fuel verbose start none
      return some { node := .atomic item.node }
    | some t =>
      if isFlagLetter t || t == .plain '-' then
        match ← parseFlags fuel t with
        | none =>
          if beginning then return none
          else failAt "global flags not at the start of the expression" start
        | some (on, off) =>
          let inner := (verbose || on.verbose) && !off.verbose
          let item ← parseGroup fuel inner start none
          return some { item with node := .scoped on off item.node }
      else failBack s!"unknown extension ?{t.text}" (t.size + 1)

/-- A lookahead or lookbehind, which began at `start`. -/
private def parseLook : Nat → Bool → Nat → Bool → Bool → Parser Item
  | 0, _, _, _, _ => return { node := .empty }
  | fuel + 1, verbose, start, behind, negated => do
    let outer := (← get).lookbehindFrom
    if behind && outer.isNone then
      modify fun s => { s with lookbehindFrom := some s.groupCount }
    let body ← parseAlternatives fuel verbose false
    if behind && outer.isNone then modify fun s => { s with lookbehindFrom := none }
    closeParenthesis start
    if behind then
      return { node := .lookbehind negated (body.width (← get).widths).1 body }
    else return { node := .lookahead negated body }
end

/-- The texts that a lookbehind matches must all have one length. -/
private def checkWidths (groups : List (Nat × Width)) (template : Bool) : Node → Except SyntaxError Unit
  | .empty | .char .. | .any | .set .. | .anchor _ | .backref _ => .ok ()
  | .seq a b | .alt a b | .condition _ a b => do
    checkWidths groups template a
    checkWidths groups template b
  | .group _ b | .scoped _ _ b | .atomic b | .lookahead _ b => checkWidths groups template b
  | .loop greed _ _ b =>
    if template then
      let name := match greed with
        | .greedy => "MAX_REPEAT"
        | .lazy => "MIN_REPEAT"
        | .possessive => "POSSESSIVE_REPEAT"
      .error (.malformed s!"internal: unsupported template operator {name}" none)
    else checkWidths groups template b
  | .lookbehind _ _ b =>
    let (low, high) := b.width groups
    if 4294967295 < low then .error (.malformed "looks too much behind" none)
    else if low ≠ high then
      .error (.malformed "look-behind requires fixed-width pattern" none)
    else checkWidths groups template b

/-- A regular expression: its tree and the flags of the whole. -/
structure Pattern where
  root : Node
  flags : Flags
  deriving DecidableEq

private def parseAll (fuel : Nat) : Parser Pattern := do
  checkNext
  let root ← parseAlternatives fuel false true
  let s ← get
  if s.flags.ascii && s.flags.unicode then throw .flagConflict
  if !s.rest.isEmpty then failBack "unbalanced parenthesis" 0
  match s.asked.find? fun a => s.groupCount < a.1 with
  | some (index, place) => failAt s!"invalid group reference {index}" place
  | none =>
    checkWidths s.widths s.flags.template root
    return ⟨root, s.flags⟩

/-- Reads a regular expression. -/
def parse (pattern : String) : Except SyntaxError Pattern :=
  let tokens := Token.ofChars pattern.toList
  ((parseAll (4 * tokens.length + 8)).run { place := 0, rest := tokens }).map (·.1)

end ApiContract.Regex
