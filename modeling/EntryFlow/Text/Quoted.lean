import EntryFlow.Text.Ranges
import EntryFlow.Text.PrintableTable

/-!
# Quoted texts

How a text is shown inside a message: in single quotes, or in double quotes when it holds a single
one and no double one, with everything that has no printed form written as an escape.
-/

namespace EntryFlow.Text

/-- The lowest `width` hexadecimal digits of a number. -/
def hexDigits : Nat → Nat → List Char
  | 0, _ => []
  | width + 1, n => hexDigits width (n / 16) ++ [Nat.digitChar (n % 16)]

/-- Whether a character has a printed form. -/
def isPrintable (c : Char) : Bool :=
  if c.toNat < 128 then 0x20 ≤ c.toNat && c.toNat < 0x7F
  else !inBounds unprintableBounds c.toNat

/-- A character inside quotes. -/
def quoteChar (mark c : Char) : List Char :=
  if c = mark || c = '\\' then ['\\', c]
  else if c = '\n' then ['\\', 'n']
  else if c = '\r' then ['\\', 'r']
  else if c = '\t' then ['\\', 't']
  else if isPrintable c then [c]
  else if c.toNat < 0x100 then '\\' :: 'x' :: hexDigits 2 c.toNat
  else if c.toNat < 0x10000 then '\\' :: 'u' :: hexDigits 4 c.toNat
  else '\\' :: 'U' :: hexDigits 8 c.toNat

/-- The text in quotes. -/
def quoted (s : String) : String :=
  let cs := s.toList
  let mark := if '\'' ∈ cs && '"' ∉ cs then '"' else '\''
  String.ofList (mark :: cs.flatMap (quoteChar mark) ++ [mark])

end EntryFlow.Text
