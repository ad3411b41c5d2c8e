/-!
# Places in a document

A cursor is what is left of a document and the place where it starts. Line breaks of a document are
line feed, carriage return, both together, next line, and the line and paragraph separators.
-/

namespace ApiContract.Yaml

/-- What is left of a document, with the place of its first character. -/
structure Cursor where
  rest : List Char
  index : Nat
  line : Nat
  column : Nat

/-- What a cursor shows behind the end of the document. No document holds this character. -/
def endMark : Char := '\x00'

def isBreak (c : Char) : Bool :=
  c == '\n' || c == '\r' || c == '\x85' || c == '\u2028' || c == '\u2029'

/-- The end of a line or of the document. -/
def isLineEnd (c : Char) : Bool := c == endMark || isBreak c

/-- What may stand behind an indicator: a blank, a tab, or the end of the line. -/
def isGap (c : Char) : Bool := c == ' ' || c == '\t' || isLineEnd c

/-- Whether a character may stand in a document. -/
def isAdmitted (c : Char) : Bool :=
  let n := c.toNat
  n == 0x9 || n == 0xa || n == 0xd || (0x20 ≤ n && n ≤ 0x7e) || n == 0x85 ||
    (0xa0 ≤ n && n ≤ 0xd7ff) || (0xe000 ≤ n && n ≤ 0xfffd) || 0x10000 ≤ n

namespace Cursor

def ofChars (cs : List Char) : Cursor := ⟨cs, 0, 0, 0⟩

/-- The character a number of places ahead. -/
def peek (c : Cursor) (ahead : Nat) : Char := c.rest.getD ahead endMark

/-- The cursor behind the next character. -/
def advance (c : Cursor) : Cursor :=
  match c.rest with
  | [] => c
  | x :: rest =>
    let ends := x == '\n' || x == '\x85' || x == '\u2028' || x == '\u2029' ||
      (x == '\r' && rest.head? != some '\n')
    if ends then ⟨rest, c.index + 1, c.line + 1, 0⟩
    else ⟨rest, c.index + 1, c.line, if x == '\ufeff' then c.column else c.column + 1⟩

/-- The cursor behind a number of characters. -/
def advanceBy (c : Cursor) : Nat → Cursor
  | 0 => c
  | n + 1 => c.advance.advanceBy n

/-- Whether the cursor is at a document marker, which is three characters with a gap behind them. -/
def isMarker (c : Cursor) (marker : Char) : Bool :=
  c.peek 0 == marker && c.peek 1 == marker && c.peek 2 == marker && isGap (c.peek 3)

/-- Whether the cursor is at a document marker of either kind. -/
def isSeparator (c : Cursor) : Bool := c.isMarker '-' || c.isMarker '.'

end Cursor

end ApiContract.Yaml
