import ApiContract.Yaml.Scalar
import ApiContract.Yaml.Scanner

/-!
# Nodes of a document

The tree of a document is read from its tokens. Nodes may be named by an anchor; an alias stands for
the node with that name, which must be finished. The tag of a node is its own or the one that its form
implies.
-/

namespace ApiContract.Yaml

inductive Node where
  | scalar (tag : Tag) (text : String)
  | sequence (tag : Tag) (items : List Node)
  | mapping (tag : Tag) (entries : List (Node × Node))

namespace Node

instance : Inhabited Node := ⟨.scalar .null ""⟩

def tag : Node → Tag
  | scalar t _ | sequence t _ | mapping t _ => t

/-- What is known while the nodes of a document are read: the meaning of tag handles, and the nodes of
the anchors so far, `none` for a node that is not finished. -/
structure Context where
  scanner : Scanner
  handles : List (String × String) := []
  anchors : List (String × Option Node) := []

/-- A step of reading nodes. -/
abbrev Read := StateT Context (Except Fault)

private def fail {α : Type} : Read α := throw (.yaml .grammar)

private def scan {α : Type} (step : Scan α) : Read α := do
  let c ← get
  let (a, scanner) ← (step.run c.scanner : Except Fault (α × Scanner))
  set { c with scanner }
  return a

private def peek : Read Token := scan Scan.next

private def skip : Read Unit := scan Scan.skip

/-- The node of an empty place. -/
def empty : Node := .scalar .null ""

/-- The standard meaning of tag handles. -/
def defaultHandles : List (String × String) := [("!", "!"), ("!!", Tag.commonPrefix)]

/-- What precedes the content of a node: its anchor and its tag. -/
structure Properties where
  anchor : Option String := none
  tag : Option (Option String × String) := none

private def readTag : Read (Option (Option String × String)) := do
  match ← peek with
  | .tag handle suffix =>
    skip
    return some (handle, suffix)
  | _ => return none

private def readAnchor : Read (Option String) := do
  match ← peek with
  | .anchor name =>
    skip
    return some name
  | _ => return none

/-- Anchor and tag in either order. -/
private def readProperties : Read Properties := do
  match ← readAnchor with
  | some a => return ⟨some a, ← readTag⟩
  | none =>
    match ← readTag with
    | some t => return ⟨← readAnchor, some t⟩
    | none => return {}

/-- The full name of a tag; `none` where the form of the node decides. -/
private def fullTag (p : Properties) : Read (Option String) := do
  match p.tag with
  | none => return none
  | some (none, suffix) => return some suffix
  | some (some handle, suffix) =>
    match (← get).handles.lookup handle with
    | some start => return some (start ++ suffix)
    | none => fail

/-- Opens an anchor, which must be new. -/
private def openAnchor (p : Properties) : Read Unit := do
  match p.anchor with
  | none => return
  | some name =>
    if ((← get).anchors.lookup name).isSome then throw (.yaml .references)
    modify fun c => { c with anchors := (name, none) :: c.anchors }

private def closeAnchor (p : Properties) (n : Node) : Read Node := do
  match p.anchor with
  | none => return n
  | some name =>
    modify fun c => { c with anchors := (name, some n) :: c.anchors }
    return n

private def collectionTag (name : Option String) (standard : Tag) : Tag :=
  match name with
  | none | some "!" => standard
  | some uri => .ofUri uri

/-- The tag of a scalar: a plain one without a tag of its own, and any scalar with the tag `!`, has the
tag that its text implies. -/
private def scalarTag (name : Option String) (text : String) (plain : Bool) : Tag :=
  match name with
  | some "!" => Scalar.implicitTag text
  | some uri => .ofUri uri
  | none => if plain then Scalar.implicitTag text else .str

/-- The node that an alias stands for. -/
private def readAlias (name : String) : Read Node := do
  match (← get).anchors.lookup name with
  | none => throw (.yaml .references)
  | some none => throw (.yaml .values)
  | some (some n) => return n

/-- Whether a token ends the place of a node in a block mapping. -/
private def endsPlace : Token → Bool
  | .key | .value | .blockEnd => true
  | _ => false

/-- Whether a token ends the place of a node in brackets. -/
private def endsFlowPlace (closing : Token → Bool) : Token → Bool
  | .flowEntry => true
  | t => closing t

private def closesSequence : Token → Bool
  | .sequenceClose => true
  | _ => false

private def closesMapping : Token → Bool
  | .mappingClose => true
  | _ => false

private def isValue : Token → Bool
  | .value => true
  | _ => false

mutual
/-- A node. Block collections are admitted where `block` holds; where `indentless` holds, so is a block
sequence that is not indented more than the mapping around it. -/
private def readNode (block indentless : Bool) : Nat → Read Node
  | 0 => fail
  | fuel + 1 => do
    match ← peek with
    | .alias name =>
      skip
      readAlias name
    | _ =>
      let p ← readProperties
      let name ← fullTag p
      match ← peek with
      | .blockEntry =>
        if indentless then
          openAnchor p
          closeAnchor p (.sequence (collectionTag name .seq) (← readIndentless fuel))
        else emptyNode p name
      | .scalar text plain =>
        skip
        openAnchor p
        closeAnchor p (.scalar (scalarTag name text plain) text)
      | .sequenceOpen =>
        openAnchor p
        skip
        closeAnchor p (.sequence (collectionTag name .seq) (← readFlowItems true fuel))
      | .mappingOpen =>
        openAnchor p
        skip
        closeAnchor p (.mapping (collectionTag name .map) (← readFlowEntries true fuel))
      | .blockSequenceStart =>
        if block then
          openAnchor p
          skip
          closeAnchor p (.sequence (collectionTag name .seq) (← readBlockItems fuel))
        else emptyNode p name
      | .blockMappingStart =>
        if block then
          openAnchor p
          skip
          closeAnchor p (.mapping (collectionTag name .map) (← readBlockEntries fuel))
        else emptyNode p name
      | _ => emptyNode p name

/-- The empty node that an anchor or a tag alone stands for. -/
private def emptyNode (p : Properties) (name : Option String) : Read Node := do
  if p.anchor.isNone && p.tag.isNone then fail
  openAnchor p
  closeAnchor p (.scalar (scalarTag name "" true) "")

private def readBlockItems : Nat → Read (List Node)
  | 0 => fail
  | fuel + 1 => do
    match ← peek with
    | .blockEntry =>
      skip
      let item ← match ← peek with
        | .blockEntry | .blockEnd => pure empty
        | _ => readNode true false fuel
      return item :: (← readBlockItems fuel)
    | .blockEnd =>
      skip
      return []
    | _ => fail

private def readIndentless : Nat → Read (List Node)
  | 0 => fail
  | fuel + 1 => do
    match ← peek with
    | .blockEntry =>
      skip
      let next ← peek
      let item ← match next with
        | .blockEntry => pure empty
        | t => if endsPlace t then pure empty else readNode true false fuel
      return item :: (← readIndentless fuel)
    | _ => return []

/-- The node behind a mark in a block mapping. -/
private def readBlockPlace : Nat → Read Node
  | 0 => fail
  | fuel + 1 => do
    if endsPlace (← peek) then return empty else readNode true true fuel

private def readBlockEntries : Nat → Read (List (Node × Node))
  | 0 => fail
  | fuel + 1 => do
    match ← peek with
    | .key =>
      skip
      let k ← readBlockPlace fuel
      let v ← readBlockValue fuel
      return (k, v) :: (← readBlockEntries fuel)
    | .blockEnd =>
      skip
      return []
    | _ => fail

private def readBlockValue : Nat → Read Node
  | 0 => fail
  | fuel + 1 => do
    if isValue (← peek) then
      skip
      readBlockPlace fuel
    else return empty

/-- The node behind a mark within brackets. -/
private def readFlowPlace (closing : Token → Bool) : Nat → Read Node
  | 0 => fail
  | fuel + 1 => do
    if endsFlowPlace closing (← peek) then return empty else readNode false false fuel

private def readFlowValue (closing : Token → Bool) : Nat → Read Node
  | 0 => fail
  | fuel + 1 => do
    if isValue (← peek) then
      skip
      readFlowPlace closing fuel
    else return empty

/-- The comma before an item that is not the first. -/
private def readSeparator (first : Bool) : Read Unit := do
  unless first do
    match ← peek with
    | .flowEntry => skip
    | _ => fail

private def readFlowItems (first : Bool) : Nat → Read (List Node)
  | 0 => fail
  | fuel + 1 => do
    if closesSequence (← peek) then
      skip
      return []
    readSeparator first
    match ← peek with
    | .key =>
      skip
      let k ← readFlowKey closesSequence fuel
      let v ← readFlowValue closesSequence fuel
      return .mapping .map [(k, v)] :: (← readFlowItems false fuel)
    | .sequenceClose =>
      skip
      return []
    | _ =>
      let item ← readNode false false fuel
      return item :: (← readFlowItems false fuel)

/-- The key behind a key mark within brackets. -/
private def readFlowKey (closing : Token → Bool) : Nat → Read Node
  | 0 => fail
  | fuel + 1 => do
    if isValue (← peek) then return empty else readFlowPlace closing fuel

private def readFlowEntries (first : Bool) : Nat → Read (List (Node × Node))
  | 0 => fail
  | fuel + 1 => do
    if closesMapping (← peek) then
      skip
      return []
    readSeparator first
    match ← peek with
    | .key =>
      skip
      let k ← readFlowKey closesMapping fuel
      let v ← readFlowValue closesMapping fuel
      return (k, v) :: (← readFlowEntries false fuel)
    | .mappingClose =>
      skip
      return []
    | _ =>
      let k ← readNode false false fuel
      return (k, empty) :: (← readFlowEntries false fuel)
end

/-- The directives before a document: at most one version, which must begin with 1, and a meaning for
each handle at most once. -/
private def readDirectives : Nat → Bool → List (String × String) → Read (List (String × String))
  | 0, _, handles => return handles
  | fuel + 1, versioned, handles => do
    match ← peek with
    | .directive d =>
      skip
      match d with
      | .version major =>
        if versioned || major != 1 then fail
        readDirectives fuel true handles
      | .tagHandle handle start =>
        if (handles.lookup handle).isSome then fail
        readDirectives fuel versioned ((handle, start) :: handles)
      | .reserved => readDirectives fuel versioned handles
    | _ => return handles

private def skipDocumentEnds : Nat → Read Unit
  | 0 => return
  | fuel + 1 => do
    match ← peek with
    | .documentEnd =>
      skip
      skipDocumentEnds fuel
    | _ => return

private def readContent (fuel : Nat) : Read Node := do
  match ← peek with
  | .directive _ | .documentStart | .documentEnd | .streamEnd => return empty
  | _ => readNode true false fuel

/-- Directives and the marker at the start of a document. -/
private def readStart (fuel : Nat) : Read Unit := do
  let handles ← readDirectives fuel false []
  match ← peek with
  | .documentStart => skip
  | _ => fail
  modify fun c => { c with handles := handles ++ defaultHandles, anchors := [] }

/-- The document of a stream, which has at most one; `none` if it has none. -/
private def readStream (fuel : Nat) : Read (Option Node) := do
  let implicit ← match ← peek with
    | .directive _ | .documentStart | .streamEnd => pure false
    | _ => pure true
  if implicit then
    modify fun c => { c with handles := defaultHandles }
    let n ← readNode true false fuel
    readEnd fuel
    return some n
  else
    skipDocumentEnds fuel
    match ← peek with
    | .streamEnd => return none
    | _ =>
      readStart fuel
      let n ← readContent fuel
      readEnd fuel
      return some n
where
  /-- Nothing may follow a document but further ends of it. -/
  readEnd (fuel : Nat) : Read Unit := do
    skipDocumentEnds fuel
    match ← peek with
    | .streamEnd => return
    | _ =>
      readStart fuel
      throw (.yaml .references)

/-- The node of a document. -/
def read (text : List Char) : Except Fault (Option Node) := do
  unless text.all isAdmitted do throw (.yaml .characters)
  let size := 8 * text.length + 32
  return (← (readStream size).run { scanner := { cursor := .ofChars text } }).1

end Node

end ApiContract.Yaml
