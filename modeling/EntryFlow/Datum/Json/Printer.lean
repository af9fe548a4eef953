import EntryFlow.Datum
import EntryFlow.Number.Shortest
import EntryFlow.Text.Quoted

/-!
# Writing JSON

Two layouts: `compact` on one line and `pretty` with two spaces of indentation for each level.
Everything outside printable ASCII is written as an escape.
-/

namespace EntryFlow.Json

/-- The escape of a UTF-16 unit. -/
def escapeUnit (n : Nat) : List Char :=
  '\\' :: 'u' :: Text.hexDigits 4 n

/-- A character of a string. -/
def encodeChar (c : Char) : List Char :=
  let n := c.toNat
  if c = '"' then ['\\', '"']
  else if c = '\\' then ['\\', '\\']
  else if c = '\n' then ['\\', 'n']
  else if c = '\r' then ['\\', 'r']
  else if c = '\t' then ['\\', 't']
  else if n = 8 then ['\\', 'b']
  else if n = 12 then ['\\', 'f']
  else if 0x20 ≤ n && n < 0x7F then [c]
  else if n < 0x10000 then escapeUnit n
  else
    let m := n - 0x10000
    escapeUnit (0xD800 + m / 0x400) ++ escapeUnit (0xDC00 + m % 0x400)

/-- A string with its quotes. -/
def encodeString (s : String) : String :=
  String.ofList ('"' :: s.toList.flatMap encodeChar ++ ['"'])

/-- A floating-point number. -/
def encodeFloat : Binary → String
  | .infinite negative => if negative then "-Infinity" else "Infinity"
  | .undefined => "NaN"
  | x => x.text

/-- How the parts of a list or an object are set apart: after the opening bracket, between the
parts, before the closing bracket and behind a key, at each depth. -/
structure Layout where
  opening : Nat → String
  between : Nat → String
  closing : Nat → String
  afterKey : String

/-- Everything on one line. -/
def Layout.compact : Layout where
  opening _ := ""
  between _ := ", "
  closing _ := ""
  afterKey := ": "

/-- A line break and two spaces for each level. -/
def Layout.pretty : Layout where
  opening depth := "\n" ++ indent (depth + 1)
  between depth := ",\n" ++ indent (depth + 1)
  closing depth := "\n" ++ indent depth
  afterKey := ": "
where
  /-- Two spaces for each level. -/
  indent (depth : Nat) : String := String.ofList (List.replicate (2 * depth) ' ')

mutual

/-- A value at some depth. -/
def encode (layout : Layout) (depth : Nat) : Datum → String
  | .null => "null"
  | .bool b => if b then "true" else "false"
  | .int n => toString n
  | .float x => encodeFloat x
  | .text s => encodeString s
  | .list [] => "[]"
  | .list (d :: ds) =>
    "[" ++ layout.opening depth ++ encode layout (depth + 1) d ++
      encodeItems layout depth ds ++ layout.closing depth ++ "]"
  | .object [] => "\x7b\x7d"
  | .object ((k, d) :: ds) =>
    "\x7b" ++ layout.opening depth ++ encodeString k ++ layout.afterKey ++
      encode layout (depth + 1) d ++ encodeFields layout depth ds ++ layout.closing depth ++ "\x7d"

/-- The items after the first. -/
def encodeItems (layout : Layout) (depth : Nat) : List Datum → String
  | [] => ""
  | d :: ds =>
    layout.between depth ++ encode layout (depth + 1) d ++ encodeItems layout depth ds

/-- The fields after the first. -/
def encodeFields (layout : Layout) (depth : Nat) : List (String × Datum) → String
  | [] => ""
  | (k, d) :: ds =>
    layout.between depth ++ encodeString k ++ layout.afterKey ++ encode layout (depth + 1) d ++
      encodeFields layout depth ds

end

/-- A document on one line. -/
def compact (d : Datum) : String :=
  encode .compact 0 d

/-- A document with one item or field on each line. -/
def pretty (d : Datum) : String :=
  encode .pretty 0 d

end EntryFlow.Json
