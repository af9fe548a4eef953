import EntryFlow.Datum.Json.Reader
import EntryFlow.Datum.Yaml.Cursor

/-!
# Scalars in a YAML text

The four ways to write a scalar that may go over several lines: plain, in single or double quotes,
and as a block of indented lines. A single line end between two parts is read as a space.

## Main definitions

* `Yaml.plain`, `Yaml.quoted?`, `Yaml.block?`.
-/

namespace EntryFlow.Yaml

/-- What line ends between two parts of a scalar stand for, given the first and the others. -/
def fold (first : Char) (others : List Char) : List Char :=
  if breakText first ≠ '\n' then breakText first :: others
  else if others.isEmpty then [' ']
  else others

/-! ### Plain scalars -/

/-- How many characters of a plain scalar stand together. -/
def plainRun (inFlow : Bool) : List Char → Nat
  | [] => 0
  | c :: cs =>
    let ends := isGap c || (inFlow && ",?[]\x7b\x7d".toList.contains c) ||
      (c = ':' && (endsWord cs || (inFlow && ",[]\x7b\x7d".toList.contains (cs.headD ' '))))
    if ends then 0 else plainRun inFlow cs + 1

/-- Line ends and spaces behind the first line end in a plain scalar: how many characters, and the
line ends unless a document marker follows one. -/
def plainBreaks : List Char → Nat × Option (List Char)
  | [] => (0, some [])
  | c :: cs =>
    if c = ' ' then
      let (count, breaks?) := plainBreaks cs
      (count + 1, breaks?)
    else if isBreak c then
      if startsMarker cs then (1, none)
      else
        let (count, breaks?) := plainBreaks cs
        (count + 1, breaks?.map (breakText c :: ·))
    else (0, some [])

/-- What stands between two parts of a plain scalar. The text is empty if the scalar ends here. -/
structure Interval where
  text : List Char
  cursor : Cursor
  overLine : Bool

/-- What stands behind a part of a plain scalar. -/
def plainInterval (c : Cursor) : Interval :=
  let spaces := c.rest.takeWhile (· = ' ')
  let c := c.advance spaces.length
  match c.rest with
  | first :: rest =>
    if isBreak first then
      let c := c.advance 1
      if startsMarker rest then ⟨[], c, true⟩
      else
        match plainBreaks rest with
        | (count, none) => ⟨[], c.advance count, true⟩
        | (count, some breaks) => ⟨fold first breaks, c.advance count, true⟩
    else ⟨spaces, c, false⟩
  | [] => ⟨spaces, c, false⟩

/-- A scalar with the cursor behind it and whether it ends at the start of a line. -/
structure Found where
  text : List Char
  cursor : Cursor
  overLine : Bool

/-- The rest of a plain scalar behind some text and an interval. Outside of brackets its lines are
indented by `indent` columns at least. `fuel` bounds the number of parts. -/
def plainFrom (inFlow : Bool) (indent fuel : Nat) (text : List Char) (before : Interval) : Found :=
  match fuel with
  | 0 => ⟨text, before.cursor, before.overLine⟩
  | fuel + 1 =>
    let c := before.cursor
    let count := if c.rest.head? = some '#' then 0 else plainRun inFlow c.rest
    if count = 0 then ⟨text, c, before.overLine⟩
    else
      let text := text ++ before.text ++ c.rest.take count
      let behind := plainInterval (c.advance count)
      if behind.text.isEmpty || behind.cursor.rest.head? = some '#' ||
          (!inFlow && behind.cursor.column < indent) then
        ⟨text, behind.cursor, behind.overLine⟩
      else plainFrom inFlow indent fuel text behind

/-- A plain scalar. -/
def plain (inFlow : Bool) (indent : Nat) (c : Cursor) : Found :=
  plainFrom inFlow indent (c.rest.length + 1) [] ⟨[], c, false⟩

/-! ### Quoted scalars -/

/-- Line ends and blanks at a place in a quoted scalar: how many characters, and the line ends. A
document marker at the start of a line is an error. -/
def quotedBreaks (atStart : Bool) : List Char → Nat × Option (List Char)
  | [] => (0, some [])
  | c :: cs =>
    if atStart && startsMarker (c :: cs) then (0, none)
    else if c = ' ' || c = '\t' then
      let (count, breaks?) := quotedBreaks false cs
      (count + 1, breaks?)
    else if isBreak c then
      let (count, breaks?) := quotedBreaks true cs
      (count + 1, breaks?.map (breakText c :: ·))
    else (0, some [])

/-- The characters that letters behind a backslash stand for. -/
def letterEscapes : List (Char × Char) :=
  [('0', '\x00'), ('a', '\x07'), ('b', '\x08'), ('t', '\t'), ('\t', '\t'), ('n', '\n'),
    ('v', '\x0b'), ('f', '\x0c'), ('r', '\r'), ('e', '\x1b'), (' ', ' '), ('"', '"'), ('\\', '\\'),
    ('/', '/'), ('N', '\x85'), ('_', '\xa0'), ('L', '\u2028'), ('P', '\u2029')]

/-- The letters behind a backslash that announce hexadecimal digits, and their number. -/
def codeEscapes : List (Char × Nat) := [('x', 2), ('u', 4), ('U', 8)]

/-- What stands behind a backslash: how many characters and the text that they stand for. -/
def escape? : List Char → Option (Nat × List Char)
  | [] => none
  | c :: cs =>
    match letterEscapes.lookup c, codeEscapes.lookup c with
    | some d, _ => some (1, [d])
    | none, some width =>
      if (cs.take width).length = width then
        (Json.hexNumber? (cs.take width)).map fun n => (width + 1, [Char.ofNat n])
      else none
    | none, none =>
      if isBreak c then
        match quotedBreaks true cs with
        | (count, breaks?) => breaks?.map fun breaks => (count + 1, breaks)
      else none

/-- The rest of a quoted scalar. `fuel` bounds the number of steps. -/
def quotedFrom? (mark : Char) (fuel : Nat) (text : List Char) (c : Cursor) : Option Found :=
  match fuel with
  | 0 => none
  | fuel + 1 =>
    match c.rest with
    | [] => none
    | first :: rest =>
      if first = mark then
        if mark = '\'' && rest.head? = some '\'' then
          quotedFrom? mark fuel (text ++ ['\'']) (c.advance 2)
        else some ⟨text, c.advance 1, false⟩
      else if mark = '"' && first = '\\' then
        match escape? rest with
        | some (count, meant) => quotedFrom? mark fuel (text ++ meant) (c.advance (count + 1))
        | none => none
      else if first = ' ' || first = '\t' then
        let blanks := c.rest.takeWhile fun d => d = ' ' || d = '\t'
        let c := c.advance blanks.length
        if endsLine c.rest then quotedFrom? mark fuel text c
        else quotedFrom? mark fuel (text ++ blanks) c
      else if isBreak first then
        match quotedBreaks true rest with
        | (_, none) => none
        | (count, some breaks) =>
          quotedFrom? mark fuel (text ++ fold first breaks) (c.advance (count + 1))
      else quotedFrom? mark fuel (text ++ [first]) (c.advance 1)

/-- A scalar in quotes. -/
def quoted? (c : Cursor) : Option Found :=
  match c.rest with
  | mark :: _ => quotedFrom? mark (c.rest.length + 1) [] (c.advance 1)
  | [] => none

/-! ### Block scalars -/

/-- What to do with the line ends behind the last line of a block. -/
inductive Chomping where
  | strip
  | clip
  | keep
  deriving DecidableEq, Repr

/-- The chomping that a sign asks for. -/
def chomping? (c : Char) : Option Chomping :=
  if c = '+' then some .keep else if c = '-' then some .strip else none

/-- The indentation that a digit asks for. -/
def increment? (c : Char) : Option Nat :=
  if '1' ≤ c && c ≤ '9' then some (c.toNat - '0'.toNat) else none

/-- The header behind the first character of a block: chomping, indentation and how many characters
they take. -/
def blockHeader (cs : List Char) : Chomping × Option Nat × Nat :=
  match cs with
  | [] => (.clip, none, 0)
  | a :: more =>
    match chomping? a, increment? a with
    | some chomping, _ =>
      match more.head?.bind increment? with
      | some n => (chomping, some n, 2)
      | none => (chomping, none, 1)
    | none, some n =>
      match more.head?.bind chomping? with
      | some chomping => (chomping, some n, 2)
      | none => (.clip, some n, 1)
    | none, none => (.clip, none, 0)

/-- How many characters of a line are spaces and a comment. -/
def lineRest (cs : List Char) : Nat :=
  let spaces := (cs.takeWhile (· = ' ')).length
  match cs.drop spaces with
  | '#' :: more => spaces + 1 + (more.takeWhile (!isBreak ·)).length
  | _ => spaces

/-- Empty lines before the first line of a block: the line ends and the greatest column that spaces
lead to. `fuel` bounds the number of characters. -/
def blockLead (fuel : Nat) (breaks : List Char) (greatest : Nat) (c : Cursor) :
    List Char × Nat × Cursor :=
  match fuel, c.rest with
  | fuel + 1, first :: _ =>
    if first = ' ' then
      let c := c.advance 1
      blockLead fuel breaks (max greatest c.column) c
    else if isBreak first then
      blockLead fuel (breaks ++ [breakText first]) greatest (c.advance 1)
    else (breaks, greatest, c)
  | _, _ => (breaks, greatest, c)

/-- Empty lines inside or behind a block: the line ends, and the cursor at `indent` columns or where
spaces end. `fuel` bounds the number of characters. -/
def blockBreaks (indent fuel : Nat) (breaks : List Char) (c : Cursor) : List Char × Cursor :=
  match fuel, c.rest with
  | fuel + 1, first :: _ =>
    if first = ' ' && c.column < indent then blockBreaks indent fuel breaks (c.advance 1)
    else if isBreak first then
      blockBreaks indent fuel (breaks ++ [breakText first]) (c.advance 1)
    else (breaks, c)
  | _, _ => (breaks, c)

/-- Whether the next line starts with a blank, where lines are not folded. -/
def startsBlank (c : Cursor) : Bool :=
  match c.rest with
  | first :: _ => first = ' ' || first = '\t'
  | [] => false

/-- The lines of a block from a cursor that stands on the first character of one, behind some text
and line ends. The result ends with the last line end and with the line ends behind it. `fuel`
bounds the number of lines. -/
def blockLines (folded : Bool) (indent fuel : Nat) (text breaks : List Char) (c : Cursor) :
    List Char × List Char × List Char × Cursor :=
  match fuel with
  | 0 => (text, [], breaks, c)
  | fuel + 1 =>
    let line := c.rest.takeWhile (!isBreak ·)
    let blank := startsBlank c
    let text := text ++ breaks ++ line
    let c := c.advance line.length
    let lineEnd := (c.rest.head?.map breakText).toList
    let (breaks, c) := blockBreaks indent c.rest.length [] (c.advance 1)
    if c.column = indent && !c.rest.isEmpty then
      let between :=
        if folded && lineEnd = ['\n'] && !blank && !startsBlank c then
          if breaks.isEmpty then [' '] else []
        else lineEnd
      blockLines folded indent fuel (text ++ between) breaks c
    else (text, lineEnd, breaks, c)

/-- A block scalar, whose lines are indented by `indent` columns at least. -/
def block? (indent : Nat) (c : Cursor) : Option Found :=
  let folded := c.rest.head? = some '>'
  let c := c.advance 1
  let (chomping, increment, count) := blockHeader c.rest
  let c := c.advance count
  if !endsLine c.rest && c.rest.head? ≠ some ' ' then none
  else
    let c := c.advance (lineRest c.rest)
    if !endsLine c.rest then none
    else
      let c := c.advance 1
      let least := max 1 indent
      let (indent, breaks, c) :=
        match increment with
        | none =>
          let (breaks, greatest, c) := blockLead c.rest.length [] 0 c
          (max least greatest, breaks, c)
        | some n =>
          let indent := least + n - 1
          let (breaks, c) := blockBreaks indent c.rest.length [] c
          (indent, breaks, c)
      let (text, lineEnd, breaks, c) :=
        if c.column = indent && !c.rest.isEmpty then
          blockLines folded indent (c.rest.length + 1) [] breaks c
        else ([], [], breaks, c)
      some
        { text := text ++ (if chomping = .strip then [] else lineEnd) ++
            (if chomping = .keep then breaks else [])
          cursor := c
          overLine := true }

end EntryFlow.Yaml
