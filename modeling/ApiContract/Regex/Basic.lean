import ApiContract.Text.LetterCase
import ApiContract.Text.DecimalDigit

/-!
# Regular expressions

The syntax tree of a regular expression with groups, back references, lookaround, conditions, greedy,
lazy and possessive repetition and scoped flags, and the widths of the texts that a tree can match.
-/

namespace ApiContract.Regex

/-- What can be switched on for a whole expression or for a part of it. -/
structure Flags where
  ignoreCase : Bool := false
  multiline : Bool := false
  dotAll : Bool := false
  verbose : Bool := false
  /-- Classes and case know ASCII alone. -/
  ascii : Bool := false
  unicode : Bool := false
  template : Bool := false
  deriving DecidableEq

namespace Flags

def union (a b : Flags) : Flags where
  ignoreCase := a.ignoreCase || b.ignoreCase
  multiline := a.multiline || b.multiline
  dotAll := a.dotAll || b.dotAll
  verbose := a.verbose || b.verbose
  ascii := a.ascii || b.ascii
  unicode := a.unicode || b.unicode
  template := a.template || b.template

def without (a b : Flags) : Flags where
  ignoreCase := a.ignoreCase && !b.ignoreCase
  multiline := a.multiline && !b.multiline
  dotAll := a.dotAll && !b.dotAll
  verbose := a.verbose && !b.verbose
  ascii := a.ascii && !b.ascii
  unicode := a.unicode && !b.unicode
  template := a.template && !b.template

/-- Whether two sets of flags have a member in common. -/
def meets (a b : Flags) : Bool :=
  (a.ignoreCase && b.ignoreCase) || (a.multiline && b.multiline) || (a.dotAll && b.dotAll) ||
    (a.verbose && b.verbose) || (a.ascii && b.ascii) || (a.unicode && b.unicode) ||
    (a.template && b.template)

/-- The flags inside a part that switches some on and some off; a choice between ASCII and all of
Unicode replaces the one made outside. -/
def inside (outer on off : Flags) : Flags :=
  let outer := if on.ascii || on.unicode then { outer with ascii := false, unicode := false } else outer
  (outer.union on).without off

end Flags

/-- Classes of characters. -/
inductive CharClass where
  | digit
  | space
  | word
  deriving DecidableEq, Repr

/-- A member of a character set. Characters are given by code point. -/
inductive SetItem where
  | single (code : Nat)
  | range (low high : Nat)
  | charClass (negated : Bool) (c : CharClass)
  deriving DecidableEq, Repr

/-- Places in a text. -/
inductive Anchor where
  | lineStart
  | lineEnd
  | textStart
  | textEnd
  | wordBoundary
  | noWordBoundary
  deriving DecidableEq, Repr

/-- How a repetition chooses between one more round and going on. -/
inductive Greed where
  | greedy
  | lazy
  | possessive
  deriving DecidableEq, Repr

inductive Node where
  | empty
  | char (negated : Bool) (code : Nat)
  | any
  | set (negated : Bool) (items : List SetItem)
  | anchor (a : Anchor)
  | seq (first second : Node)
  | alt (first second : Node)
  /-- A group that remembers the text it matches. -/
  | group (index : Nat) (body : Node)
  | scoped (on off : Flags) (body : Node)
  | loop (greed : Greed) (least : Nat) (most : Option Nat) (body : Node)
  | atomic (body : Node)
  | lookahead (negated : Bool) (body : Node)
  /-- `width` is the length of the texts that the body matches. -/
  | lookbehind (negated : Bool) (width : Nat) (body : Node)
  | backref (index : Nat)
  | condition (index : Nat) (yes no : Node)
  deriving DecidableEq

/-- The nodes one after the other. -/
def Node.ofList : List Node → Node
  | [] => .empty
  | [n] => n
  | n :: ns => .seq n (Node.ofList ns)

/-- Least and greatest length of a matched text. -/
abbrev Width := Nat × Nat

/-- No text is longer. -/
def maxWidth : Nat := Nat.pow 2 64

private def capped (w : Width) : Width := (min w.1 maxWidth, min w.2 maxWidth)

/-- The width of a node, given those of the groups that it refers to. -/
def Node.width (groups : List (Nat × Width)) : Node → Width
  | .empty | .anchor _ | .lookahead .. | .lookbehind .. => (0, 0)
  | .char .. | .any | .set .. => (1, 1)
  | .seq a b =>
    let (l, h) := a.width groups
    let (l', h') := b.width groups
    capped (l + l', h + h')
  | .alt a b =>
    let (l, h) := a.width groups
    let (l', h') := b.width groups
    (min l l', max h h')
  | .group _ b | .scoped _ _ b | .atomic b => b.width groups
  | .loop _ least most b =>
    let (l, h) := b.width groups
    let high := match most with
      | none => if h = 0 then 0 else maxWidth
      | some n => h * n
    capped (l * least, high)
  | .backref i => (groups.lookup i).getD (0, 0)
  | .condition _ yes no =>
    let (l, h) := yes.width groups
    let (l', h') := no.width groups
    (min l l', max h h')

end ApiContract.Regex
