import EntryFlow.Datum.Json.Reader
import EntryFlow.Number.Integer
import EntryFlow.Text.Case

/-!
# Forms of plain scalars

A scalar without quotes is a truth value, a number, null, a date or a text by its form. Numbers may
hold underscores, and may be given by sixties with colons between the parts.

## Main definitions

* `Yaml.Form`, `Yaml.formOf`.
* `Yaml.integer?`, `Yaml.float?`: the values of numbers.
-/

namespace EntryFlow.Yaml

/-- What a plain scalar is by its form. -/
inductive Form where
  | text
  | bool
  | int
  | float
  | null
  | date
  /-- The key under which other maps are merged. -/
  | merge
  /-- The key of a default value. -/
  | default
  deriving DecidableEq, Repr

/-- The words for truth values. -/
def boolWords : List (String × Bool) :=
  [("yes", true), ("Yes", true), ("YES", true), ("no", false), ("No", false), ("NO", false),
    ("true", true), ("True", true), ("TRUE", true), ("false", false), ("False", false),
    ("FALSE", false), ("on", true), ("On", true), ("ON", true), ("off", false), ("Off", false),
    ("OFF", false)]

/-- The words for null. -/
def nullWords : List String := ["", "~", "null", "Null", "NULL"]

/-- The words for infinity and for the undefined number, behind their dot. -/
def infinityWords : List String := ["inf", "Inf", "INF"]

/-- The words for the undefined number, behind their dot. -/
def undefinedWords : List String := ["nan", "NaN", "NAN"]

/-- Whether a number is negative, and the number without its sign. -/
def splitSign : List Char → Bool × List Char
  | '-' :: cs => (true, cs)
  | '+' :: cs => (false, cs)
  | cs => (false, cs)

/-- Digits of a base and underscores. -/
def isDigitOf (base : Nat) (c : Char) : Bool :=
  c = '_' || (Json.hexValue? c).any (· < base)

/-- One or two digits below sixty. -/
def isSixtieth : List Char → Bool
  | [a] => a.isDigit
  | [a, b] => '0' ≤ a && a ≤ '5' && b.isDigit
  | _ => false

/-- Whole numbers in a base that their first digits tell, or by sixties. -/
def isInteger (cs : List Char) : Bool :=
  match (splitSign cs).2 with
  | [] => false
  | ['0'] => true
  | '0' :: 'b' :: ds => !ds.isEmpty && ds.all (isDigitOf 2)
  | '0' :: 'x' :: ds => !ds.isEmpty && ds.all (isDigitOf 16)
  | '0' :: ds => ds.all (isDigitOf 8)
  | c :: ds =>
    c.isDigit &&
      match (c :: ds).splitOn ':' with
      | whole :: parts => whole.all (isDigitOf 10) && parts.all isSixtieth
      | [] => false

/-- An exponent, which has a sign, or nothing. -/
def isExponent : List Char → Bool
  | [] => true
  | e :: sign :: ds =>
    (e = 'e' || e = 'E') && (sign = '+' || sign = '-') && !ds.isEmpty && ds.all Char.isDigit
  | _ => false

/-- Numbers with a point. -/
def isFloat (cs : List Char) : Bool :=
  match (splitSign cs).2 with
  | '.' :: rest =>
    let word := String.ofList rest
    if word ∈ infinityWords then true
    else if (splitSign cs).2 ≠ cs then false
    else if word ∈ undefinedWords then true
    else (rest.headD ' ').isDigit && isExponent (rest.dropWhile (isDigitOf 10))
  | c :: body =>
    let whole := (c :: body).takeWhile fun d => isDigitOf 10 d || d = ':'
    match (c :: body).drop whole.length with
    | '.' :: rest =>
      c.isDigit &&
        match whole.splitOn ':' with
        | [_] => isExponent (rest.dropWhile (isDigitOf 10))
        | _ :: parts => parts.all isSixtieth && rest.all (isDigitOf 10)
        | [] => false
    | _ => false
  | [] => false

/-- The text behind some digits, `least` at least and `most` at most. -/
def dropDigits? (least most : Nat) (cs : List Char) : Option (List Char) :=
  let count := ((cs.take most).takeWhile Char.isDigit).length
  if least ≤ count then some (cs.drop count) else none

/-- The text behind a mark. -/
def dropMark? (mark : Char) : List Char → Option (List Char)
  | c :: cs => if c = mark then some cs else none
  | [] => none

/-- The text behind a year, a month and a day with so many digits at least. -/
def dropDay? (least : Nat) (cs : List Char) : Option (List Char) := do
  let cs ← dropMark? '-' (← dropDigits? 4 4 cs)
  let cs ← dropMark? '-' (← dropDigits? least 2 cs)
  dropDigits? least 2 cs

/-- The text behind the mark between a day and a time. -/
def dropTimeMark? : List Char → Option (List Char)
  | [] => none
  | c :: cs =>
    if c = 'T' || c = 't' then some cs
    else if c = ' ' || c = '\t' then some (cs.dropWhile fun d => d = ' ' || d = '\t')
    else none

/-- The text behind an hour, a minute and a second with places. -/
def dropTime? (cs : List Char) : Option (List Char) := do
  let cs ← dropMark? ':' (← dropDigits? 1 2 cs)
  let cs ← dropMark? ':' (← dropDigits? 2 2 cs)
  let cs ← dropDigits? 2 2 cs
  return ((dropMark? '.' cs).map (·.dropWhile Char.isDigit)).getD cs

/-- Whether a text is a time zone behind blanks, or nothing. -/
def isZone (cs : List Char) : Bool :=
  cs.isEmpty ||
    match cs.dropWhile fun d => d = ' ' || d = '\t' with
    | ['Z'] => true
    | sign :: rest =>
      (sign = '+' || sign = '-') &&
        match dropDigits? 1 2 rest with
        | some [] => true
        | some (':' :: minutes) => dropDigits? 2 2 minutes = some []
        | _ => false
    | [] => false

/-- Days, and days with a time. -/
def isDate (cs : List Char) : Bool :=
  dropDay? 2 cs = some [] || (((dropDay? 1 cs).bind dropTimeMark?).bind dropTime?).any isZone

/-- What a plain scalar is by its form. -/
def formOf (cs : List Char) : Form :=
  let word := String.ofList cs
  if (boolWords.lookup word).isSome then .bool
  else if word ∈ nullWords then .null
  else if isFloat cs then .float
  else if isInteger cs then .int
  else if isDate cs then .date
  else if word = "<<" then .merge
  else if word = "=" then .default
  else .text

/-- The value of digits of a base. -/
def digitsOf? (base : Nat) (cs : List Char) : Option Nat :=
  if cs.isEmpty then none
  else cs.foldlM (fun n c => ((Json.hexValue? c).filter (· < base)).map (n * base + ·)) 0

/-- The value of a whole number without sign and underscores. -/
def natural? : List Char → Option Nat
  | ['0'] => some 0
  | '0' :: 'b' :: ds => digitsOf? 2 ds
  | '0' :: 'x' :: ds => digitsOf? 16 ds
  | '0' :: ds => digitsOf? 8 ds
  | cs => (cs.splitOn ':').foldlM (fun n part => (digitsOf? 10 part).map (n * 60 + ·)) 0

/-- The value of a whole number. -/
def integer? (cs : List Char) : Option Int :=
  let (negative, body) := splitSign (cs.filter (· ≠ '_'))
  (natural? body).map fun n => if negative then -(n : Int) else n

/-- The value of a number with an optional point and exponent, without a sign. -/
def decimal? (negative : Bool) (cs : List Char) : Option Binary :=
  let whole := cs.takeWhile Char.isDigit
  let rest := cs.drop whole.length
  let places := match rest with
    | '.' :: more => more.takeWhile Char.isDigit
    | _ => []
  let rest := match rest with
    | '.' :: more => more.drop places.length
    | _ => rest
  if whole.isEmpty && places.isEmpty then none
  else
    let value (exponent : Int) : Binary :=
      .ofDecimal negative (Json.decimal (whole ++ places)) (exponent - places.length)
    if rest.isEmpty then some (value 0)
    else
      match Json.exponent? rest with
      | some (exponent, []) => some (value exponent)
      | _ => none

/-- The sum of a number and a multiple of another one, both not negative. -/
def plus (factor : Nat) (a b : Binary) : Binary :=
  match a, b with
  | .finite _ m e, .finite _ n f =>
    let (num, den) := Binary.ratio m e
    let (num', den') := Binary.ratio n f
    .ofRatio false (num' * den + num * den' * factor) (den * den')
  | a, _ => a

/-- The sum of parts by sixties, given the last one first and the weight of the first of them. -/
def sixties (weight : Nat) (sum : Binary) : List Binary → Binary
  | [] => sum
  | part :: parts => sixties (weight * 60) (plus weight part sum) parts

/-- The number with a minus sign. -/
def negate : Binary → Binary
  | .finite negative mantissa exponent => .finite (!negative) mantissa exponent
  | .infinite negative => .infinite (!negative)
  | .undefined => .undefined

/-- The value of a number with a point. -/
def float? (cs : List Char) : Option Binary :=
  let (negative, body) := splitSign ((cs.filter (· ≠ '_')).map Char.toLower)
  if body = ".inf".toList then some (.infinite negative)
  else if body = ".nan".toList then some .undefined
  else if ':' ∈ body then
    match (body.splitOn ':').mapM (decimal? false) with
    | some parts =>
      let sum := sixties 1 (.ofRatio false 0 1) parts.reverse
      some (if negative then negate sum else sum)
    | none => none
  else decimal? negative body

end EntryFlow.Yaml
