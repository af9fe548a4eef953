/-!
# Shell patterns

`*` stands for any text, `?` for any character and `[…]` for a character of a set; everything else
stands for itself, also a bracket that is not closed. A pattern has to match the whole text.

The inside of the brackets is cut at each hyphen that can make a range; the characters on both sides
of a cut are the ends of the range. A range whose ends are the wrong way round is dropped together
with them, and an exclamation mark in front of what is left means every other character.

## Main definitions

* `Glob.parse`, `Glob.accepts`, `globMatches`.
-/

namespace EntryFlow.Text

namespace Glob

/-- A piece of a pattern. -/
inductive Piece where
  | star
  | any
  | one (c : Char)
  /-- A character that is, or with `negated` is not, among `members` or between the ends of a
  range. -/
  | set (negated : Bool) (members : List Char) (ranges : List (Char × Char))
  deriving DecidableEq, Repr

/-- The characters before and after the first hyphen that has at least `skip` characters before
it. -/
def cutHyphen (skip : Nat) : List Char → Option (List Char × List Char)
  | [] => none
  | c :: cs =>
    match skip with
    | n + 1 => (cutHyphen n cs).map fun (l, r) => (c :: l, r)
    | 0 => if c = '-' then some ([], cs) else (cutHyphen 0 cs).map fun (l, r) => (c :: l, r)

/-- The chunks between the hyphens that make ranges. The first chunk has at least `skip`
characters, a later one two unless it is the last. `fuel` bounds their number. -/
def chunks (fuel skip : Nat) (cs : List Char) : List (List Char) :=
  match fuel with
  | 0 => [cs]
  | fuel + 1 =>
    match cutHyphen skip cs with
    | some (chunk, rest) =>
      if rest.isEmpty then [chunk ++ ['-']] else chunk :: chunks fuel 2 rest
    | none => [cs]

/-- Join chunks whose range is empty, from the right. -/
def mergeChunks : List (List Char) → List (List Char)
  | [] => []
  | chunk :: rest =>
    match mergeChunks rest with
    | next :: more =>
      if (chunk.getLast?.bind fun a => next.head?.map fun b => decide (b < a)).getD false then
        (chunk.dropLast ++ next.drop 1) :: more
      else chunk :: next :: more
    | [] => [chunk]

/-- The ranges between neighbouring chunks. -/
def rangesOf : List (List Char) → List (Char × Char)
  | chunk :: next :: rest =>
    match chunk.getLast?, next.head? with
    | some a, some b => (a, b) :: rangesOf (next :: rest)
    | _, _ => rangesOf (next :: rest)
  | _ => []

/-- The piece for the inside of brackets. -/
def setPiece (inside : List Char) : Piece :=
  let parts :=
    if '-' ∈ inside then
      mergeChunks (chunks inside.length (if inside.head? = some '!' then 2 else 1) inside)
    else [inside]
  match parts with
  | ('!' :: first) :: rest => .set true (first ++ rest.flatten) (rangesOf (first :: rest))
  | parts => .set false parts.flatten (rangesOf parts)

/-- The inside of brackets and the rest behind them, if they are closed. A bracket that closes
stands for itself in the first place, also behind an exclamation mark. -/
def bracket? (cs : List Char) : Option (List Char × List Char) :=
  let front := match cs with
    | '!' :: ']' :: _ => 2
    | '!' :: _ => 1
    | ']' :: _ => 1
    | _ => 0
  let middle := (cs.drop front).takeWhile (· ≠ ']')
  match (cs.drop front).dropWhile (· ≠ ']') with
  | _ :: rest => some (cs.take front ++ middle, rest)
  | [] => none

/-- The pieces of a pattern; `fuel` bounds their number. -/
def parseFrom (fuel : Nat) (cs : List Char) : List Piece :=
  match fuel with
  | 0 => []
  | fuel + 1 =>
    match cs with
    | [] => []
    | '*' :: cs => .star :: parseFrom fuel cs
    | '?' :: cs => .any :: parseFrom fuel cs
    | '[' :: cs =>
      match bracket? cs with
      | some (inside, rest) => setPiece inside :: parseFrom fuel rest
      | none => .one '[' :: parseFrom fuel cs
    | c :: cs => .one c :: parseFrom fuel cs

/-- The pieces of a pattern. -/
def parse (pattern : List Char) : List Piece :=
  parseFrom (pattern.length + 1) pattern

/-- Whether a piece other than a star stands for a character. -/
def Piece.accepts (c : Char) : Piece → Bool
  | star => false
  | any => true
  | one d => c == d
  | set negated members ranges =>
    negated != (members.contains c || ranges.any fun (a, b) => a ≤ c && c ≤ b)

/-- Whether the suffixes of a text that the rest of a pattern accepts include one of those of a
text. -/
def onSomeSuffix (accepts : List Char → Bool) : List Char → Bool
  | [] => accepts []
  | c :: cs => accepts (c :: cs) || onSomeSuffix accepts cs

/-- Whether pieces match a whole text. -/
def accepts : List Piece → List Char → Bool
  | [], cs => cs.isEmpty
  | .star :: pieces, cs => onSomeSuffix (accepts pieces) cs
  | piece :: pieces, cs =>
    match cs with
    | [] => false
    | c :: cs => piece.accepts c && accepts pieces cs

end Glob

/-- Whether a shell pattern matches a whole text. -/
def globMatches (pattern text : String) : Bool :=
  Glob.accepts (Glob.parse pattern.toList) text.toList

end EntryFlow.Text
