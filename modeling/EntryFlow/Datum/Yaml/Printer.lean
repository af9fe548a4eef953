import EntryFlow.Datum.Yaml.Cursor
import EntryFlow.Datum.Yaml.Plain
import EntryFlow.Number.Shortest
import EntryFlow.Text.Quoted

/-!
# Writing YAML

Lists and maps are written in blocks, with two columns for each level; the items of a list that
belongs to a key stand at the column of the key. A text is written plainly where that reads back as
the same text, else in single quotes, else in double quotes with escapes. Lines are broken at spaces
beyond column 80.

## Main definitions

* `Yaml.document`.
-/

namespace EntryFlow.Yaml

/-- The column beyond which lines are broken. -/
def width : Nat := 80

/-- A line end and the spaces of an indentation. -/
def newLine (indent : Nat) : List Char :=
  '\n' :: List.replicate indent ' '

/-- Whether two characters stand next to each other. -/
def hasPair (a b : Char) (cs : List Char) : Bool :=
  (cs.zip (cs.drop 1)).contains (a, b)

/-- Whether all characters can be written without escapes. -/
def isSimple (cs : List Char) : Bool :=
  cs.all fun c => c = '\n' || (0x20 ≤ c.toNat && c.toNat ≤ 0x7E)

/-- Whether a space or a line end stands on either side. -/
def hasMargin (cs : List Char) : Bool :=
  let isMargin (c? : Option Char) : Bool := c? = some ' ' || c? = some '\n'
  isMargin cs.head? || isMargin cs.getLast?

/-- Whether marks behind the first character would be taken for the end of a key or a comment. -/
def hasInnerMarks (cs : List Char) : Bool :=
  hasPair ':' ' ' cs || cs.getLast? = some ':' || hasPair ' ' '#' cs

/-- Whether a text starts like a mark. -/
def startsLikeMark (cs : List Char) : Bool :=
  match cs with
  | [] => false
  | c :: rest =>
    "---".toList.isPrefixOf cs || "...".toList.isPrefixOf cs ||
      "#,[]\x7b\x7d&*!|>'\"%@`".toList.contains c ||
      ("?:-".toList.contains c && endsWord rest)

/-- Whether a text can be written without quotes. -/
def isPlain (cs : List Char) : Bool :=
  !cs.isEmpty && formOf cs = .text && isSimple cs && !cs.contains '\n' && !hasMargin cs &&
    !startsLikeMark cs && !hasInnerMarks cs

/-- Whether a text can be written in single quotes. -/
def isSingle (cs : List Char) : Bool :=
  isSimple cs && !hasPair ' ' '\n' cs && !hasPair '\n' ' ' cs

/-- The runs of spaces, of line ends and of other characters. -/
def runs (cs : List Char) : List (List Char) :=
  let kind (c : Char) : Nat := if c = ' ' then 0 else if c = '\n' then 1 else 2
  cs.splitBy fun a b => kind a == kind b

/-- Runs of a text without quotes from a column on. -/
def plainRuns (indent column : Nat) : List (List Char) → List Char
  | [] => []
  | run :: rest =>
    if run = [' '] && width < column then newLine indent ++ plainRuns indent indent rest
    else run ++ plainRuns indent (column + run.length) rest

/-- Runs of a text in single quotes from a column on. A space at either end stays on its line. -/
def singleRuns (indent column : Nat) (isFirst : Bool) : List (List Char) → List Char
  | [] => []
  | run :: rest =>
    if run = [' '] && width < column && !isFirst && !rest.isEmpty then
      newLine indent ++ singleRuns indent indent false rest
    else if run.head? = some '\n' then
      '\n' :: run ++ List.replicate indent ' ' ++ singleRuns indent indent false rest
    else
      let shown := run.flatMap fun c => if c = '\'' then ['\'', '\''] else [c]
      shown ++ singleRuns indent (column + shown.length) false rest

/-- The letters that stand for characters behind a backslash. -/
def escapeLetters : List (Char × Char) :=
  [('\x00', '0'), ('\x07', 'a'), ('\x08', 'b'), ('\t', 't'), ('\n', 'n'), ('\x0b', 'v'),
    ('\x0c', 'f'), ('\r', 'r'), ('\x1b', 'e'), ('"', '"'), ('\\', '\\'), ('\x85', 'N'),
    ('\xa0', '_'), ('\u2028', 'L'), ('\u2029', 'P')]

/-- The escape of a character in double quotes, if it needs one. -/
def escapeOf? (c : Char) : Option (List Char) :=
  let n := c.toNat
  if 0x20 ≤ n && n ≤ 0x7E && c ≠ '"' && c ≠ '\\' then none
  else
    match escapeLetters.lookup c with
    | some letter => some ['\\', letter]
    | none =>
      let digits (count : Nat) : List Char := (Text.hexDigits count n).map Char.toUpper
      some <|
        if n ≤ 0xFF then '\\' :: 'x' :: digits 2
        else if n ≤ 0xFFFF then '\\' :: 'u' :: digits 4
        else '\\' :: 'U' :: digits 8

/-- What is written at a break of a line in double quotes before a text: a space that comes next is
kept by a backslash. -/
def doubleBreak (indent : Nat) (cs : List Char) : List Char :=
  '\\' :: newLine indent ++ if cs.head? = some ' ' then ['\\'] else []

/-- The column behind a break of a line in double quotes. -/
def columnAfterBreak (indent : Nat) (cs : List Char) : Nat :=
  if cs.head? = some ' ' then indent + 1 else indent

/-- Characters in double quotes from a column on. A line is broken at a space or at an escape;
`together` tells whether a character comes before that may not be cut off. -/
def doubleChars (indent column : Nat) (isFirst together : Bool) : List Char → List Char
  | [] => []
  | c :: cs =>
    let mayBreak := !isFirst && !cs.isEmpty
    match escapeOf? c with
    | some escape =>
      let column := column + escape.length
      if mayBreak && width < column - 1 then
        escape ++ doubleBreak indent cs ++
          doubleChars indent (columnAfterBreak indent cs) false false cs
      else escape ++ doubleChars indent column false false cs
    | none =>
      if mayBreak && (c = ' ' || !together) && width < column then
        doubleBreak indent (c :: cs) ++ [c] ++
          doubleChars indent (columnAfterBreak indent (c :: cs) + 1) false true cs
      else c :: doubleChars indent (column + 1) false true cs

/-- A text at a column; lines after the first are indented. -/
def textAt (indent column : Nat) (s : String) : List Char :=
  let cs := s.toList
  if isPlain cs then plainRuns indent column (runs cs)
  else if isSingle cs then '\'' :: singleRuns indent (column + 1) true (runs cs) ++ ['\'']
  else '"' :: doubleChars indent (column + 1) true false cs ++ ['"']

/-- Whether a text can be a key on the line of its value. -/
def isShortKey (cs : List Char) : Bool :=
  !cs.isEmpty && cs.length < 123 && !cs.contains '\n'

/-- A key on the line of its value, which is never broken. -/
def keyAt (s : String) : List Char :=
  let cs := s.toList
  if isPlain cs then cs
  else if isSingle cs then '\'' :: cs.flatMap (fun c => if c = '\'' then [c, c] else [c]) ++ ['\'']
  else '"' :: cs.flatMap (fun c => (escapeOf? c).getD [c]) ++ ['"']

/-- A floating-point number. -/
def floatText : Binary → List Char
  | .infinite negative => (if negative then "-.inf" else ".inf").toList
  | .undefined => ".nan".toList
  | x =>
    let cs := x.text.toList
    if cs.contains '.' then cs
    else cs.flatMap fun c => if c = 'e' then ".0e".toList else [c]

/-- A scalar at a column. -/
def scalarAt (indent column : Nat) : Datum → List Char
  | .null => "null".toList
  | .bool b => (if b then "true" else "false").toList
  | .int n => (toString n).toList
  | .float x => floatText x
  | .text s => textAt indent column s
  | .list _ => "[]".toList
  | .object _ => "\x7b\x7d".toList

/-- Lines at an indentation, of which the first is there already. -/
def linesAt (indent : Nat) (parts : List (List Char)) : List Char :=
  (newLine indent).intercalate parts

mutual

/-- A value that starts at an indentation. -/
def inlineAt (indent : Nat) : Datum → List Char
  | .list [] => "[]".toList
  | .list ds => linesAt indent (itemsAt indent ds)
  | .object [] => "\x7b\x7d".toList
  | .object fs => linesAt indent (entriesAt indent fs)
  | d => scalarAt indent indent d

/-- A value behind the colon of its key. -/
def valueAt (indent column : Nat) : Datum → List Char
  | .list [] => " []".toList
  | .list ds => newLine indent ++ linesAt indent (itemsAt indent ds)
  | .object [] => " \x7b\x7d".toList
  | .object fs => newLine (indent + 2) ++ linesAt (indent + 2) (entriesAt (indent + 2) fs)
  | d => ' ' :: scalarAt (indent + 2) column d

/-- The items of a list. -/
def itemsAt (indent : Nat) : List Datum → List (List Char)
  | [] => []
  | d :: ds => ('-' :: ' ' :: inlineAt (indent + 2) d) :: itemsAt indent ds

/-- The entries of a map. A key that is empty, long or of several lines stands behind a question
mark. -/
def entriesAt (indent : Nat) : List (String × Datum) → List (List Char)
  | [] => []
  | (k, d) :: fs =>
    (if isShortKey k.toList then
        keyAt k ++ ':' :: valueAt indent (indent + (keyAt k).length + 2) d
      else
        '?' :: ' ' :: textAt (indent + 2) (indent + 2) k ++ newLine indent ++
          ':' :: ' ' :: inlineAt (indent + 2) d) :: entriesAt indent fs

end

/-- The document of a map. -/
def document (d : Datum) : String :=
  String.ofList (inlineAt 0 d ++ ['\n'])

end EntryFlow.Yaml
