import ApiContract.Regex.Parser

/-!
# Matching regular expressions

Backtracking search with continuations: a node is run from a position and hands every position where
it can end, in order of preference, to what follows, until something succeeds. A loop runs at most once
more after a round that took no character, so the length of the text bounds the rounds.

Main definition: `Pattern.search`.
-/

namespace ApiContract.Regex

/-- A position in a text, with the texts that groups have matched so far. -/
structure Position where
  /-- The number of characters before the position. -/
  place : Nat
  /-- The characters before the position, nearest first. -/
  before : List Char
  rest : List Char
  groups : List (Nat × List Char) := []

namespace Position

/-- The position after the next character. -/
def advance (p : Position) : Position :=
  match p.rest with
  | [] => p
  | c :: rest => { p with place := p.place + 1, before := c :: p.before, rest }

/-- The position so many characters earlier, if there are so many. -/
def retreat? : Nat → Position → Option Position
  | 0, p => some p
  | n + 1, p =>
    match p.before with
    | [] => none
    | c :: before => retreat? n { p with place := p.place - 1, before, rest := c :: p.rest }

/-- Remembers the text from an earlier position up to this one as what a group has matched. -/
def capture (p : Position) (index start : Nat) : Position :=
  { p with groups := (index, (p.before.take (p.place - start)).reverse) :: p.groups }

end Position

/-- What follows a node. -/
abbrev Continuation := Position → Option Position

private def lowerAscii (c : Char) : Char := c.toLower

/-- Whether two characters are the same under the flags. -/
def sameChar (flags : Flags) (a b : Char) : Bool :=
  if flags.ignoreCase then
    if flags.ascii then lowerAscii a == lowerAscii b else Text.sameIgnoringCase a b
  else a == b

/-- Whether a character is the one of a code point. The codes of halves of surrogate pairs are no
characters. -/
def isCode (flags : Flags) (code : Nat) (c : Char) : Bool :=
  let d := Char.ofNat code
  d.toNat == code && sameChar flags d c

/-- Whether a character is in a class. -/
def CharClass.holds (flags : Flags) (c : Char) : CharClass → Bool
  | .digit => if flags.ascii then c.isDigit else Text.isDecimalDigit c
  | .space =>
    if flags.ascii then c.isWhitespace || c == '\x0b' || c == '\x0c' else Text.isBlank c
  | .word => if flags.ascii then c.isAlphanum || c == '_' else Text.isWordCharacter c

/-- The characters that stand for a character in a set: itself, and if case is ignored those that
differ from it in case alone. -/
def variants (flags : Flags) (c : Char) : List Char :=
  if flags.ignoreCase then
    if flags.ascii then [c, c.toLower, c.toUpper] else Text.caseVariants c
  else [c]

/-- Whether a character is a member of a set. -/
def SetItem.holds (flags : Flags) (c : Char) (vs : List Char) : SetItem → Bool
  | .single code => vs.any (·.toNat == code)
  | .range low high => vs.any fun v => low ≤ v.toNat && v.toNat ≤ high
  | .charClass negated k => k.holds flags c != negated

private def isWordAt (flags : Flags) (c : Option Char) : Bool :=
  (c.map fun c => CharClass.word.holds flags c).getD false

/-- Whether an anchor holds at a position. -/
def Anchor.holds (flags : Flags) (p : Position) : Anchor → Bool
  | .lineStart => p.before.isEmpty || (flags.multiline && p.before.head? == some '\n')
  | .lineEnd =>
    p.rest.isEmpty || p.rest == ['\n'] || (flags.multiline && p.rest.head? == some '\n')
  | .textStart => p.before.isEmpty
  | .textEnd => p.rest.isEmpty
  | .wordBoundary => isWordAt flags p.before.head? != isWordAt flags p.rest.head?
  | .noWordBoundary =>
    !(p.before.isEmpty && p.rest.isEmpty) &&
      isWordAt flags p.before.head? == isWordAt flags p.rest.head?

/-- One more character, if the test holds for it. -/
def step (test : Char → Bool) (p : Position) (k : Continuation) : Option Position :=
  match p.rest with
  | [] => none
  | c :: _ => if test c then k p.advance else none

/-- A given text, character by character. -/
private def takeText (same : Char → Char → Bool) : List Char → Position → Option Position
  | [], p => some p
  | c :: cs, p =>
    match p.rest with
    | [] => none
    | d :: _ => if same c d then takeText same cs p.advance else none

/-- The rounds of a greedy or lazy loop. `need` rounds are still required, `more` are allowed in all,
and the last optional round began at `last`. A round that takes nothing fulfils all required ones. -/
def runLoop (round : Position → Continuation → Option Position) (isLazy : Bool)
    (k : Continuation) : Nat → Nat → Option Nat → Option Nat → Position → Option Position
  | 0, _, _, _, p => k p
  | fuel + 1, need, more, last, p =>
    let fewer := more.map (· - 1)
    if 0 < need then
      round p fun q =>
        if q.place == p.place then
          runLoop round isLazy k fuel 0 (more.map (· - need)) last q
        else runLoop round isLazy k fuel (need - 1) fewer last q
    else
      let again (_ : Unit) : Option Position :=
        if more == some 0 || last == some p.place then none
        else round p fun q => runLoop round isLazy k fuel 0 fewer (some p.place) q
      if isLazy then (k p).orElse again else (again ()).orElse fun _ => k p

/-- The rounds of a possessive loop, each settled before the next. -/
private def runPossessive (round : Position → Option Position) :
    Nat → Nat → Option Nat → Option Nat → Position → Option Position
  | 0, _, _, _, p => some p
  | fuel + 1, need, more, last, p =>
    let fewer := more.map (· - 1)
    if 0 < need then
      match round p with
      | none => none
      | some q =>
        if q.place == p.place then runPossessive round fuel 0 (more.map (· - need)) last q
        else runPossessive round fuel (need - 1) fewer last q
    else if more == some 0 || last == some p.place then some p
    else
      match round p with
      | none => some p
      | some q => runPossessive round fuel 0 fewer (some p.place) q

/-- Runs a node from a position. -/
def Node.run (flags : Flags) : Node → Position → Continuation → Option Position
  | .empty, p, k => k p
  | .char negated code, p, k =>
    step (fun c => isCode flags code c != negated) p k
  | .any, p, k => step (fun c => flags.dotAll || c != '\n') p k
  | .set negated items, p, k =>
    step (fun c =>
      let vs := variants flags c
      items.any (·.holds flags c vs) != negated) p k
  | .anchor a, p, k => if a.holds flags p then k p else none
  | .seq a b, p, k => a.run flags p fun q => b.run flags q k
  | .alt a b, p, k => (a.run flags p k).orElse fun _ => b.run flags p k
  | .group i b, p, k => b.run flags p fun q => k (q.capture i p.place)
  | .scoped on off b, p, k => b.run (flags.inside on off) p k
  | .loop .greedy least most b, p, k =>
    runLoop (b.run flags) false k (p.rest.length + 4) least most none p
  | .loop .lazy least most b, p, k =>
    runLoop (b.run flags) true k (p.rest.length + 4) least most none p
  | .loop .possessive least most b, p, k =>
    (runPossessive (fun q => b.run flags q some) (p.rest.length + 4) least most none p).bind k
  | .atomic b, p, k => (b.run flags p some).bind k
  | .lookahead negated b, p, k =>
    match b.run flags p some with
    | some q => if negated then none else k { p with groups := q.groups }
    | none => if negated then k p else none
  | .lookbehind negated width b, p, k =>
    match (Position.retreat? width p).bind fun q => b.run flags q some with
    | some q => if negated then none else k { p with groups := q.groups }
    | none => if negated then k p else none
  | .backref i, p, k =>
    match p.groups.lookup i with
    | none => none
    | some text =>
      let same (a b : Char) : Bool :=
        if flags.ignoreCase then
          if flags.ascii then a.toLower == b.toLower else Text.lowerOne a == Text.lowerOne b
        else a == b
      (takeText same text p).bind k
  | .condition i yes no, p, k =>
    if (p.groups.lookup i).isSome then yes.run flags p k else no.run flags p k

/-- Whether the pattern matches from this place or a later one. -/
def Pattern.searchFrom (r : Pattern) : Nat → List Char → List Char → Bool
  | place, before, [] => (r.root.run r.flags ⟨place, before, [], []⟩ some).isSome
  | place, before, c :: rest =>
    (r.root.run r.flags ⟨place, before, c :: rest, []⟩ some).isSome ||
      searchFrom r (place + 1) (c :: before) rest

/-- Whether the pattern matches somewhere in a text. -/
def Pattern.search (r : Pattern) (text : String) : Bool := r.searchFrom 0 [] text.toList

end ApiContract.Regex
