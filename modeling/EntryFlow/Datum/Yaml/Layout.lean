import EntryFlow.Datum.Yaml.Token

/-!
# Layout of a YAML text

The indentation of a text decides where its blocks start and end, and a colon makes a key of what
stands before it on the line. What may turn out to be a key is kept as a candidate, one for each
depth of brackets; when the colon comes, the tokens of a key are put in before the candidate.

## Main definitions

* `Yaml.Layout`: the state between two tokens.
* `Yaml.tokens?`: the tokens of a text.
-/

namespace EntryFlow.Yaml

/-- What may turn out to be a key: the number of tokens before it and where it starts. A required
one is the only thing that may stand at its place. -/
structure Candidate where
  before : Nat
  required : Bool
  position : Position
  deriving DecidableEq, Repr

/-- The state between two tokens: the columns of the open blocks, innermost first, how many brackets
are open, whether a key may start here, the candidates by depth and the tokens so far. -/
structure Layout where
  cursor : Cursor
  blocks : List Nat
  depth : Nat
  keyAllowed : Bool
  candidates : List (Nat × Candidate)
  tokens : List Token

namespace Layout

/-- The layout before the first token. -/
def start (cs : List Char) : Layout where
  cursor := .start cs
  blocks := []
  depth := 0
  keyAllowed := true
  candidates := []
  tokens := []

/-- The column of the innermost block plus one; zero outside of all blocks. -/
def margin (l : Layout) : Nat :=
  match l.blocks with
  | [] => 0
  | column :: _ => column + 1

/-- Whether brackets are open. -/
def inFlow (l : Layout) : Bool := l.depth ≠ 0

/-- Add a token. -/
def emit (l : Layout) (t : Token) : Layout :=
  { l with tokens := l.tokens ++ [t] }

/-- Go on behind some characters. -/
def skip (l : Layout) (count : Nat) : Layout :=
  { l with cursor := l.cursor.advance count }

/-- Set whether a key may start next. -/
def allowKey (l : Layout) (allowed : Bool) : Layout :=
  { l with keyAllowed := allowed }

/-- Give up the candidate at the present depth; a required one must not be given up. -/
def dropCandidate (l : Layout) : Option Layout :=
  match l.candidates.lookup l.depth with
  | some c =>
    if c.required then none
    else some { l with candidates := l.candidates.filter (·.1 ≠ l.depth) }
  | none => some l

/-- Whether a candidate can no longer be a key: it is on another line or too far away. -/
def isStale (l : Layout) (c : Candidate) : Bool :=
  c.position.line ≠ l.cursor.position.line || c.position.index + 1024 < l.cursor.position.index

/-- Give up the candidates that can no longer be keys. -/
def dropStale (l : Layout) : Option Layout :=
  if l.candidates.any fun c => l.isStale c.2 && c.2.required then none
  else some { l with candidates := l.candidates.filter fun c => !l.isStale c.2 }

/-- Make a candidate of what comes next. -/
def saveCandidate (l : Layout) : Option Layout :=
  if l.keyAllowed then do
    let required := !l.inFlow && l.blocks.head? = some l.cursor.column
    let l ← l.dropCandidate
    let c : Candidate := ⟨l.tokens.length, required, l.cursor.position⟩
    return { l with candidates := (l.depth, c) :: l.candidates }
  else some l

/-- Close the blocks that are indented by more than some columns. -/
def closeBlocks (l : Layout) (isDeeper : Nat → Bool) : Layout :=
  if l.inFlow then l
  else
    { l with
      blocks := l.blocks.dropWhile isDeeper
      tokens := l.tokens ++ (l.blocks.takeWhile isDeeper).map fun _ => .blockEnd }

/-- Whether a column opens a new block. -/
def opensBlock (l : Layout) (column : Nat) : Bool :=
  !l.inFlow && l.margin ≤ column

/-- Open a block at a column if that is new, with a token put in behind some number of tokens. -/
def openBlock (l : Layout) (t : Token) (column before : Nat) : Layout :=
  if l.opensBlock column then
    { l with blocks := column :: l.blocks, tokens := l.tokens.insertIdx before t }
  else l

/-- The tokens of a mark that is no part of a block. -/
def mark (l : Layout) (t : Token) (count : Nat) : Layout :=
  (l.emit t).skip count

/-- A directive or the mark of a document, which closes all blocks. -/
def document (l : Layout) (t : Token) (count : Nat) : Option Layout := do
  let l ← (l.closeBlocks fun _ => true).dropCandidate
  return (l.allowKey false).mark t count

/-- An opening bracket. -/
def openBracket (l : Layout) (t : Token) : Option Layout := do
  let l ← l.saveCandidate
  return ({ l with depth := l.depth + 1 }.allowKey true).mark t 1

/-- A closing bracket. -/
def closeBracket (l : Layout) (t : Token) : Option Layout := do
  if l.depth = 0 then none
  let l ← l.dropCandidate
  return ({ l with depth := l.depth - 1 }.allowKey false).mark t 1

/-- A comma between the parts of a collection in brackets. -/
def comma (l : Layout) : Option Layout := do
  let l ← (l.allowKey true).dropCandidate
  return l.mark .comma 1

/-- A dash in front of an item. -/
def dash (l : Layout) : Option Layout := do
  if !l.inFlow && !l.keyAllowed then none
  let l := l.openBlock .blockList l.cursor.column l.tokens.length
  let l ← (l.allowKey true).dropCandidate
  return l.mark .dash 1

/-- A question mark in front of a key. -/
def question (l : Layout) : Option Layout := do
  if !l.inFlow && !l.keyAllowed then none
  let l := l.openBlock .blockMap l.cursor.column l.tokens.length
  let l ← (l.allowKey (!l.inFlow)).dropCandidate
  return l.mark .key 1

/-- A colon: what stands before it on the line is a key if it is a candidate. -/
def colon (l : Layout) : Option Layout :=
  match l.candidates.lookup l.depth with
  | some c =>
    let l :=
      { l with
        candidates := l.candidates.filter (·.1 ≠ l.depth)
        tokens := l.tokens.insertIdx c.before .key }
    let l := l.openBlock .blockMap c.position.column c.before
    some ((l.allowKey false).mark .value 1)
  | none => do
    if !l.inFlow && !l.keyAllowed then none
    let l := l.openBlock .blockMap l.cursor.column l.tokens.length
    let l ← (l.allowKey (!l.inFlow)).dropCandidate
    return l.mark .value 1

/-- A name or a tag, which may be the start of a key. -/
def property (l : Layout) (t : Token) (count : Nat) : Option Layout := do
  let l ← l.saveCandidate
  return (l.allowKey false).mark t count

/-- A scalar that may be a key. -/
def scalar (l : Layout) (isPlain : Bool) (read? : Layout → Option Found) : Option Layout := do
  let l ← l.saveCandidate
  let found ← read? l
  let l := l.emit (.scalar isPlain (String.ofList found.text))
  return { l with cursor := found.cursor, keyAllowed := found.overLine }

/-- A scalar in a block of lines, which is no key. -/
def block (l : Layout) : Option Layout := do
  let l ← (l.allowKey true).dropCandidate
  let found ← block? l.margin l.cursor
  return { l.emit (.scalar false (String.ofList found.text)) with cursor := found.cursor }

/-- Blanks, comments and line ends: how many characters, and whether a line ends among them. -/
def blanks (inComment : Bool) : List Char → Nat × Bool
  | [] => (0, false)
  | c :: cs =>
    if isBreak c then ((blanks false cs).1 + 1, true)
    else if inComment || c = ' ' || c = '#' then
      let (count, overLine) := blanks (inComment || c = '#') cs
      (count + 1, overLine)
    else (0, false)

/-- Go on to the next token. -/
def skipBlanks (l : Layout) : Layout :=
  let cs := l.cursor.rest
  let mark := if l.cursor.position.index = 0 && cs.head? = some '\uFEFF' then 1 else 0
  let (count, overLine) := blanks false (cs.drop mark)
  let l := l.skip (mark + count)
  if overLine && !l.inFlow then l.allowKey true else l

/-- Whether a plain scalar starts with a text. -/
def startsPlain (inFlow : Bool) : List Char → Bool
  | [] => false
  | c :: cs =>
    !(isGap c || "-?:,[]\x7b\x7d#&*!|>'\"%@`".toList.contains c) ||
      (!endsWord cs && (c = '-' || (!inFlow && (c = '?' || c = ':'))))

/-- The token that a text starts with. -/
def token (l : Layout) (c : Char) (cs : List Char) : Option Layout :=
  let text := c :: cs
  let atStart := l.cursor.column = 0
  if c = '%' && atStart then (directive? text).bind fun (t, count) => l.document t count
  else if atStart && startsWord "---".toList text then l.document .documentStart 3
  else if atStart && startsWord "...".toList text then l.document .documentEnd 3
  else if c = '[' then l.openBracket .listStart
  else if c = '\x7b' then l.openBracket .mapStart
  else if c = ']' then l.closeBracket .listEnd
  else if c = '\x7d' then l.closeBracket .mapEnd
  else if c = ',' then l.comma
  else if c = '-' && endsWord cs then l.dash
  else if c = '?' && (l.inFlow || endsWord cs) then l.question
  else if c = ':' && (l.inFlow || endsWord cs) then l.colon
  else if c = '*' then
    (anchorName? text).bind fun (name, count) => l.property (.alias name) count
  else if c = '&' then
    (anchorName? text).bind fun (name, count) => l.property (.anchor name) count
  else if c = '!' then (tagName? text).bind fun (t, count) => l.property t count
  else if (c = '|' || c = '>') && !l.inFlow then l.block
  else if c = '\'' || c = '"' then l.scalar false fun l => quoted? l.cursor
  else if startsPlain l.inFlow text then
    l.scalar true fun l => some (plain l.inFlow l.margin l.cursor)
  else none

/-- All tokens from a layout on. Each takes a character at least; `fuel` bounds their number. -/
def finish (fuel : Nat) (l : Layout) : Option (List Token) :=
  match fuel with
  | 0 => none
  | fuel + 1 => do
    let l ← l.skipBlanks.dropStale
    let column := l.cursor.column
    let l := l.closeBlocks fun block => column < block
    match l.cursor.rest with
    | [] => return (← (l.closeBlocks fun _ => true).dropCandidate).tokens
    | c :: cs => finish fuel (← l.token c cs)

end Layout

/-- The tokens of a text, if it can be cut into tokens. -/
def tokens? (cs : List Char) : Option (List Token) :=
  if cs.all isAllowed then Layout.finish (cs.length + 1) (.start cs) else none

end EntryFlow.Yaml
