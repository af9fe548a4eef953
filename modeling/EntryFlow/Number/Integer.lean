import EntryFlow.Text.Blank
import EntryFlow.Text.Digit

/-!
# Reading integers

A decimal integer may have a sign, blanks on both sides, digits of any script and single underscores
between digits.

## Main definitions

* `Integer.ofText?`.
-/

namespace EntryFlow.Integer

open Text

/-- Blanks that may stand beside a number; the information separators may not. -/
def isMargin (c : Char) : Bool :=
  isBlank c && !(0x1C ≤ c.toNat && c.toNat ≤ 0x1F)

/-- The text without blanks on both sides. -/
def trimMargins (cs : List Char) : List Char :=
  ((cs.dropWhile isMargin).reverse.dropWhile isMargin).reverse

/-- The value of digits that follow the value `acc`. -/
def digitsFrom? (acc : Nat) : List Char → Option Nat
  | [] => some acc
  | '_' :: c :: cs => (digitValue? c).bind fun d => digitsFrom? (acc * 10 + d) cs
  | c :: cs => (digitValue? c).bind fun d => digitsFrom? (acc * 10 + d) cs

/-- The value of digits, of which there is at least one in front. -/
def digits? : List Char → Option Nat
  | [] => none
  | c :: cs => (digitValue? c).bind fun d => digitsFrom? d cs

/-- The integer that a text stands for. -/
def ofText? (s : String) : Option Int :=
  match trimMargins s.toList with
  | '-' :: cs => (digits? cs).map fun n => -(n : Int)
  | '+' :: cs => (digits? cs).map fun n => (n : Int)
  | cs => (digits? cs).map fun n => (n : Int)

end EntryFlow.Integer
