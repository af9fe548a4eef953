/-!
# Binary floating-point numbers

Numbers of 53 significant bits, kept as sign, mantissa and exponent, so that reading, comparing and
writing them is exact arithmetic on natural numbers.

## Main definitions

* `Binary`: the type; a finite number is `mantissa · 2 ^ exponent` with the mantissa below `2 ^ 53`.
* `Binary.ofRatio`, `Binary.ofDecimal`: rounding to the nearest number, a tie to the even mantissa.
* `Binary.compareInt`: order against an integer.
-/

namespace EntryFlow

/-- A floating-point number of 53 significant bits with exponents from -1074 to 971. -/
inductive Binary where
  | finite (negative : Bool) (mantissa : Nat) (exponent : Int)
  | infinite (negative : Bool)
  | undefined
  deriving DecidableEq, Repr

namespace Binary

/-- The least exponent; numbers that have it may have a small mantissa. -/
def minExponent : Int := -1074

/-- The greatest exponent. -/
def maxExponent : Int := 971

/-- `num / den` to the nearest integer, a tie to the even one. -/
def roundDiv (num den : Nat) : Nat :=
  let q := num / den
  let r := num % den
  if den < 2 * r || (2 * r == den && q % 2 == 1) then q + 1 else q

/-- The numerator and denominator of `num / (den · 2 ^ exponent)`. -/
def scale (num den : Nat) (exponent : Int) : Nat × Nat :=
  if 0 ≤ exponent then (num, den * Nat.pow 2 exponent.toNat)
  else (num * Nat.pow 2 (-exponent).toNat, den)

/-- The number nearest to `num / den`. -/
def ofRatio (negative : Bool) (num den : Nat) : Binary :=
  if num = 0 || den = 0 then .finite negative 0 minExponent
  else
    let size : Int := (num.log2 : Int) - den.log2
    let (n, d) := scale num den size
    let exponent := max minExponent (if d ≤ n then size - 52 else size - 53)
    let (n, d) := scale num den exponent
    let mantissa := roundDiv n d
    let (mantissa, exponent) :=
      if mantissa = Nat.pow 2 53 then (Nat.pow 2 52, exponent + 1) else (mantissa, exponent)
    if maxExponent < exponent then .infinite negative else .finite negative mantissa exponent

/-- The number nearest to `digits · 10 ^ exponent`. -/
def ofDecimal (negative : Bool) (digits : Nat) (exponent : Int) : Binary :=
  let size : Int := exponent + (Nat.toDigits 10 digits).length
  if digits = 0 || size < -400 then .finite negative 0 minExponent
  else if 400 < size then .infinite negative
  else if 0 ≤ exponent then ofRatio negative (digits * Nat.pow 10 exponent.toNat) 1
  else ofRatio negative digits (Nat.pow 10 (-exponent).toNat)

/-- Whether the number is zero of either sign. -/
def isZero : Binary → Bool
  | finite _ mantissa _ => mantissa == 0
  | _ => false

/-- The numerator and denominator of the absolute value `mantissa · 2 ^ exponent`. -/
def ratio (mantissa : Nat) (exponent : Int) : Nat × Nat :=
  if 0 ≤ exponent then (mantissa * Nat.pow 2 exponent.toNat, 1)
  else (mantissa, Nat.pow 2 (-exponent).toNat)

/-- The order of the number and an integer; nothing for the undefined number. -/
def compareInt? (x : Binary) (n : Int) : Option Ordering :=
  match x with
  | finite negative mantissa exponent =>
    let (num, den) := ratio mantissa exponent
    let num : Int := if negative then -num else num
    some (compare num (n * den))
  | infinite negative => some (if negative then .lt else .gt)
  | undefined => none

end Binary

end EntryFlow
