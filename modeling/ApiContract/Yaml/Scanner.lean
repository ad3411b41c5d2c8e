import ApiContract.Yaml.ScalarText

/-!
# Cutting a document into tokens

The scanner finds tokens only as far as they are asked for. It has to look past a token that may be
the start of a mapping key, because a colon behind it puts tokens in before it.
-/

namespace ApiContract.Yaml.Scan

/-- Letters, digits, hyphen and underscore. -/
private def isNameChar (c : Char) : Bool := c.isAlphanum || c == '-' || c == '_'

private def isUriChar (c : Char) : Bool := c.isAlphanum || "-;/?:@&=+$,_.!~*'()[]%".contains c

private def takeName : Scan String := do
  let cs ← takeWhile isNameChar
  if cs.isEmpty then fail
  return String.ofList cs

/-! ### Tags -/

/-- The bytes that a row of percent escapes stands for. -/
private def uriEscapes : Nat → Scan (List UInt8)
  | 0 => return []
  | fuel + 1 => do
    if (← peek 0) != '%' then return []
    forward 1
    match (← cursor).rest.take 2 with
    | [a, b] =>
      let isHex := fun (c : Char) => c.isDigit || ('a' ≤ c && c ≤ 'f') || ('A' ≤ c && c ≤ 'F')
      unless isHex a && isHex b do fail
      forward 2
      let code := (Numeral.ofBaseDigits? 16 [a, b]).getD 0
      return code.toUInt8 :: (← uriEscapes fuel)
    | _ => fail

private def uriParts : Nat → Scan (List Char)
  | 0 => return []
  | fuel + 1 => do
    let run ← takeWhile fun c => isUriChar c && c != '%'
    if (← peek 0) == '%' then
      match Text.decodeUtf8? (← uriEscapes (fuel + 1)) with
      | some cs => return run ++ cs ++ (← uriParts fuel)
      | none => fail
    else return run

/-- A tag, or the replacement of a tag handle. -/
private def takeUri : Scan String := do
  let before := (← cursor).index
  let cs ← uriParts ((← cursor).rest.length + 1)
  if (← cursor).index = before then fail
  return String.ofList cs

/-- A tag handle: an exclamation mark, or a name between two. -/
private def takeHandle : Scan String := do
  if (← peek 0) != '!' then fail
  if (← peek 1) == ' ' then
    forward 1
    return "!"
  forward 1
  let name ← takeWhile isNameChar
  if (← peek 0) != '!' then fail
  forward 1
  return "!" ++ String.ofList name ++ "!"

/-- Whether a second exclamation mark stands before the next blank. -/
private def hasHandle : List Char → Bool
  | [] => false
  | c :: cs => if c == ' ' || isLineEnd c then false else c == '!' || hasHandle cs

private def takeTag : Scan Token := do
  let c ← peek 1
  let tag ← if c == '<' then do
      forward 2
      let uri ← takeUri
      if (← peek 0) != '>' then fail
      forward 1
      pure (Token.tag none uri)
    else if isGap c then do
      forward 1
      pure (Token.tag none "!")
    else if hasHandle ((← cursor).rest.drop 1) then do
      let handle ← takeHandle
      pure (Token.tag (some handle) (← takeUri))
    else do
      forward 1
      pure (Token.tag (some "!") (← takeUri))
  let after ← peek 0
  unless after == ' ' || isLineEnd after do fail
  return tag

/-! ### Directives -/

private def takeNumber : Scan Nat := do
  let ds ← takeWhile Char.isDigit
  match Numeral.ofDigits? ds with
  | some n => return n
  | none => fail

private def requireEnd : Scan Unit := do
  let c ← peek 0
  unless c == ' ' || isLineEnd c do fail

private def takeDirective : Scan Token := do
  forward 1
  let name ← takeName
  requireEnd
  let d ← match name with
    | "YAML" => do
      skipBlanks
      let major ← takeNumber
      if (← peek 0) != '.' then fail
      forward 1
      let _ ← takeNumber
      requireEnd
      pure (Directive.version major)
    | "TAG" => do
      skipBlanks
      let handle ← takeHandle
      if (← peek 0) != ' ' then fail
      skipBlanks
      let replacement ← takeUri
      requireEnd
      pure (Directive.tagHandle handle replacement)
    | _ => do
      skipLine
      pure Directive.reserved
  takeEmptyRest
  return .directive d

/-! ### The next tokens -/

/-- Skips blanks, comments and line breaks. A key may start in a new line. -/
private def skipToToken : Nat → Scan Unit
  | 0 => return
  | fuel + 1 => do
    skipBlanks
    if (← peek 0) == '#' then skipLine
    let taken ← takeBreak
    if taken.isEmpty then return
    unless ← inFlow do allowKey true
    skipToToken fuel

private def takeStart : Scan Unit := do
  let c ← cursor
  if c.index = 0 && c.peek 0 == '\ufeff' then forward 1
  skipToToken (c.rest.length + 1)

private def endOfStream : Scan Unit := do
  closeBlocks (-1)
  dropKey
  modify fun s => { s with keyAllowed := false, keys := [], done := true }
  push .streamEnd

private def fetchDirective : Scan Unit := do
  closeBlocks (-1)
  dropKey
  allowKey false
  push (← takeDirective)

private def fetchMarker (t : Token) : Scan Unit := do
  closeBlocks (-1)
  dropKey
  allowKey false
  forward 3
  push t

private def fetchOpening (t : Token) : Scan Unit := do
  saveKey
  modify fun s => { s with flowLevel := s.flowLevel + 1, keyAllowed := true }
  forward 1
  push t

private def fetchClosing (t : Token) : Scan Unit := do
  dropKey
  modify fun s => { s with flowLevel := s.flowLevel - 1, keyAllowed := false }
  forward 1
  push t

private def fetchFlowEntry : Scan Unit := do
  allowKey true
  dropKey
  forward 1
  push .flowEntry

/-- Opens a block collection at the current column where one may start. -/
private def openHere (t : Token) : Scan Unit := do
  unless ← inFlow do
    let s ← get
    unless s.keyAllowed do fail
    if ← openBlock s.cursor.column then push t

private def fetchBlockEntry : Scan Unit := do
  openHere .blockSequenceStart
  allowKey true
  dropKey
  forward 1
  push .blockEntry

private def fetchKey : Scan Unit := do
  openHere .blockMappingStart
  allowKey (!(← inFlow))
  dropKey
  forward 1
  push .key

/-- The colon of a mapping. A key that was possible until now is one: its token, and that of a mapping
that starts with it, go before it. -/
private def fetchValue : Scan Unit := do
  let s ← get
  match s.keys.lookup s.flowLevel with
  | some k =>
    let place := k.token - s.taken
    set { s with
      keys := s.keys.filter (·.1 != s.flowLevel), queue := s.queue.insertIdx place .key,
      keyAllowed := false }
    unless ← inFlow do
      if ← openBlock k.column then
        modify fun s => { s with queue := s.queue.insertIdx place .blockMappingStart }
  | none =>
    openHere .blockMappingStart
    allowKey (!(← inFlow))
    dropKey
  forward 1
  push .value

/-- A token that may start a key. -/
private def fetchContent (take : Scan Token) : Scan Unit := do
  saveKey
  allowKey false
  push (← take)

private def takeReference (make : String → Token) : Scan Token := do
  forward 1
  let name ← takeName
  let c ← peek 0
  unless isGap c || "?:,]\x7d%@`".contains c do fail
  return make name

private def fetchBlock : Scan Unit := do
  allowKey true
  dropKey
  push (← takeBlock)

/-- Whether a plain scalar may start with a character that has another behind it. -/
private def startsPlain (flow : Bool) (c next : Char) : Bool :=
  !(isGap c || "-?:,[]\x7b\x7d#&*!|>'\"%@`".contains c) ||
    (!isGap next && (c == '-' || (!flow && (c == '?' || c == ':'))))

/-- Finds the next token, and those that have to stand before it. -/
def fetch : Scan Unit := do
  takeStart
  dropStaleKeys
  closeBlocks (← cursor).column
  let s ← get
  let c := s.cursor.peek 0
  let next := s.cursor.peek 1
  let flow := s.flowLevel != 0
  let atLineStart := s.cursor.column = 0
  if c == endMark then endOfStream
  else if c == '%' && atLineStart then fetchDirective
  else if atLineStart && s.cursor.isMarker '-' then fetchMarker .documentStart
  else if atLineStart && s.cursor.isMarker '.' then fetchMarker .documentEnd
  else if c == '[' then fetchOpening .sequenceOpen
  else if c == '\x7b' then fetchOpening .mappingOpen
  else if c == ']' then fetchClosing .sequenceClose
  else if c == '\x7d' then fetchClosing .mappingClose
  else if c == ',' then fetchFlowEntry
  else if c == '-' && isGap next then fetchBlockEntry
  else if c == '?' && (flow || isGap next) then fetchKey
  else if c == ':' && (flow || isGap next) then fetchValue
  else if c == '*' then fetchContent (takeReference .alias)
  else if c == '&' then fetchContent (takeReference .anchor)
  else if c == '!' then fetchContent takeTag
  else if (c == '|' || c == '>') && !flow then fetchBlock
  else if c == '\'' || c == '"' then fetchContent takeQuoted
  else if startsPlain flow c next then fetchContent takePlain
  else fail

/-- Finds tokens until the first of the queue is certain. -/
private def fill : Nat → Scan Unit
  | 0 => return
  | fuel + 1 => do
    if (← get).done then return
    unless (← get).queue.isEmpty do
      dropStaleKeys
      let s ← get
      unless s.keys.any fun k => k.2.token = s.taken do return
    fetch
    fill fuel

/-- The next token, which stays in the queue. -/
def next : Scan Token := do
  fill ((← cursor).rest.length + 2)
  return (← get).queue.headD .streamEnd

/-- Takes the next token. -/
def skip : Scan Unit :=
  modify fun s => { s with queue := s.queue.tail, taken := s.taken + 1 }

end ApiContract.Yaml.Scan
