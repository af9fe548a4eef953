/-!
# Places in a YAML text

A cursor is the rest of a text with the line, column and index at which it starts. Columns count
characters; a byte order mark takes none.

## Main definitions

* `Yaml.Cursor`, `Yaml.Cursor.advance`.
* `Yaml.isBreak`, `Yaml.isGap`, `Yaml.startsMarker`: line ends, blanks and document markers.
-/

namespace EntryFlow.Yaml

/-- The characters that end a line. -/
def isBreak (c : Char) : Bool :=
  c = '\n' || c = '\x85' || c = '\u2028' || c = '\u2029'

/-- The text of a line end: most kinds are read as a line feed. -/
def breakText (c : Char) : Char :=
  if c = '\x85' then '\n' else c

/-- The characters that end a word. -/
def isGap (c : Char) : Bool :=
  c = ' ' || c = '\t' || isBreak c

/-- Whether a word ends before a text. -/
def endsWord : List Char → Bool
  | [] => true
  | c :: _ => isGap c

/-- Whether a line ends before a text. -/
def endsLine : List Char → Bool
  | [] => true
  | c :: _ => isBreak c

/-- Whether a text starts with some mark that is a word by itself. -/
def startsWord (mark cs : List Char) : Bool :=
  match mark.isPrefixOf? cs with
  | some rest => endsWord rest
  | none => false

/-- Whether a text starts with the mark of the start or the end of a document. -/
def startsMarker (cs : List Char) : Bool :=
  startsWord "---".toList cs || startsWord "...".toList cs

/-- The characters that may stand in a document. -/
def isAllowed (c : Char) : Bool :=
  let n := c.toNat
  n = 0x09 || n = 0x0A || n = 0x0D || (0x20 ≤ n && n ≤ 0x7E) || n = 0x85 ||
    (0xA0 ≤ n && n ≤ 0xD7FF) || (0xE000 ≤ n && n ≤ 0xFFFD) || 0x10000 ≤ n

/-- Where a part of a text starts. -/
structure Position where
  line : Nat
  column : Nat
  index : Nat
  deriving DecidableEq, Repr

/-- The position behind a character. -/
def Position.after (p : Position) (c : Char) : Position :=
  if isBreak c then ⟨p.line + 1, 0, p.index + 1⟩
  else if c = '\uFEFF' then ⟨p.line, p.column, p.index + 1⟩
  else ⟨p.line, p.column + 1, p.index + 1⟩

/-- The rest of a text with its position. -/
structure Cursor where
  rest : List Char
  position : Position
  deriving DecidableEq, Repr

namespace Cursor

/-- The start of a text. -/
def start (cs : List Char) : Cursor := ⟨cs, ⟨0, 0, 0⟩⟩

/-- The cursor behind some characters. -/
def advance (c : Cursor) (count : Nat) : Cursor where
  rest := c.rest.drop count
  position := (c.rest.take count).foldl Position.after c.position

/-- The column of the cursor. -/
def column (c : Cursor) : Nat := c.position.column

end Cursor

end EntryFlow.Yaml
