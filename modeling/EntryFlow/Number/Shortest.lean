import EntryFlow.Number.Binary

/-!
# Shortest decimal text of a binary number

A floating-point number is written with the fewest significant digits that read back as the same
number, and of those with the nearest. `Binary.digits` finds them in exact arithmetic: the reals
that round to the number form an interval, and the first decimal grid that has a point in it
decides. `Binary.text` then places the point: plain below `10 ^ 16` and from `0.0001` up, with an
exponent of at least two digits elsewhere.
-/

namespace EntryFlow.Binary

/-- The interval of reals that round to `mantissa · 2 ^ exponent`, as numerators over one
denominator: lower end, the number, upper end, denominator. -/
def interval (mantissa : Nat) (exponent : Int) : Nat × Nat × Nat × Nat :=
  let narrow := mantissa = Nat.pow 2 52 ∧ minExponent < exponent
  let (num, den) := ratio (4 * mantissa) (exponent - 2)
  let (unit, _) := ratio 1 (exponent - 2)
  (num - (if narrow then unit else 2 * unit), num, num + 2 * unit, den)

/-- The least `k` with `num / den < 10 ^ k`. -/
def decimalPoint (num den : Nat) : Int :=
  if den ≤ num then (Nat.toDigits 10 (num / den)).length
  else
    let k : Nat := (Nat.toDigits 10 (den / num)).length
    if num * Nat.pow 10 k < 10 * den then 1 - (k : Int) else 2 - (k : Int)

/-- The points beside the number on the grid of step `10 ^ (point - size)` that lie in the interval,
the nearest first. -/
def candidates (mantissa : Nat) (exponent point : Int) (size : Nat) : List Nat :=
  let (low, mid, high, den) := interval mantissa exponent
  let place := point - size
  let up := Nat.pow 10 (-place).toNat
  let down := den * Nat.pow 10 place.toNat
  let floor := mid * up / down
  let inside (n : Nat) : Bool :=
    if mantissa % 2 = 0 then low * up ≤ n * down && n * down ≤ high * up
    else low * up < n * down && n * down < high * up
  let order :=
    if 2 * (mid * up - floor * down) < down ||
      (2 * (mid * up - floor * down) == down && floor % 2 == 0) then [floor, floor + 1]
    else [floor + 1, floor]
  order.filter fun n => n ≠ 0 && inside n

/-- The shortest digits of a positive number and the position of the point before them. -/
def digits (mantissa : Nat) (exponent : Int) : List Char × Int :=
  let (num, den) := ratio mantissa exponent
  let point := decimalPoint num den
  let found := (List.range 18).findSome? fun size =>
    (candidates mantissa exponent point size).head?.map fun n => (n, size)
  match found with
  | some (n, size) =>
    let shown := Nat.toDigits 10 n
    let kept := (shown.reverse.dropWhile (· = '0')).reverse
    (kept, point + (shown.length - size : Int))
  | none => (['0'], 1)

/-- Digits with the point placed: positional if `-4 < point ≤ 16`, with an exponent otherwise. -/
def place (digits : List Char) (point : Int) : List Char :=
  let size : Int := digits.length
  if 16 < point || point ≤ -4 then
    let exponent := point - 1
    let shown := Nat.toDigits 10 exponent.natAbs
    let mark := if exponent < 0 then '-' else '+'
    let fraction := if digits.length ≤ 1 then [] else '.' :: digits.drop 1
    digits.take 1 ++ fraction ++ 'e' :: mark ::
      (if shown.length < 2 then '0' :: shown else shown)
  else if point ≤ 0 then '0' :: '.' :: List.replicate (-point).toNat '0' ++ digits
  else if size ≤ point then digits ++ List.replicate (point - size).toNat '0' ++ ['.', '0']
  else digits.take point.toNat ++ '.' :: digits.drop point.toNat

/-- The shortest text that reads back as the number. -/
def text : Binary → String
  | finite negative mantissa exponent =>
    let sign := if negative then ['-'] else []
    if mantissa = 0 then String.ofList (sign ++ ['0', '.', '0'])
    else
      let (ds, point) := digits mantissa exponent
      String.ofList (sign ++ place ds point)
  | infinite negative => if negative then "-inf" else "inf"
  | undefined => "nan"

end EntryFlow.Binary
