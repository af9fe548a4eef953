import EntryFlow.Datum

/-!
# Reading JSON

A reader for one JSON document. Beyond the standard it takes `NaN`, `Infinity` and `-Infinity`;
a repeated key keeps its first place and its last value; a control character in a string, anything
after the document and a byte order mark before it are refused.

## Main definitions

* `Json.parse?`: the value of a document, if the text is one.
-/

namespace EntryFlow.Json

/-- Drop blanks. -/
def skip (cs : List Char) : List Char :=
  cs.dropWhile fun c => c = ' ' || c = '\t' || c = '\n' || c = '\r'

/-- The value of a hexadecimal digit. -/
def hexValue? (c : Char) : Option Nat :=
  if c.isDigit then some (c.toNat - '0'.toNat)
  else if 'a' ≤ c && c ≤ 'f' then some (c.toNat - 'a'.toNat + 10)
  else if 'A' ≤ c && c ≤ 'F' then some (c.toNat - 'A'.toNat + 10)
  else none

/-- The value of hexadecimal digits, if all are. -/
def hexNumber? (cs : List Char) : Option Nat :=
  cs.foldlM (fun n c => (hexValue? c).map (n * 16 + ·)) 0

/-- The character of an escape that is a single letter. -/
def escapeChar? (c : Char) : Option Char :=
  [('"', '"'), ('\\', '\\'), ('/', '/'), ('b', '\x08'), ('f', '\x0c'), ('n', '\n'), ('r', '\r'),
    ('t', '\t')].lookup c

/-- The four digits behind `\u`, and the rest. -/
def unit? (cs : List Char) : Option (Nat × List Char) :=
  if (cs.take 4).length = 4 then (hexNumber? (cs.take 4)).map (·, cs.drop 4) else none

/-- One character of a string and the rest, where the text does not start with the closing quote.
Two units of a surrogate pair are one character, and half a pair is the replacement character. -/
def stringChar? : List Char → Option (Char × List Char)
  | [] => none
  | '\\' :: 'u' :: cs => do
    let (high, rest) ← unit? cs
    if 0xD800 ≤ high && high < 0xDC00 then
      match rest with
      | '\\' :: 'u' :: more =>
        match unit? more with
        | some (low, after) =>
          if 0xDC00 ≤ low && low < 0xE000 then
            some (Char.ofNat (0x10000 + (high - 0xD800) * 0x400 + (low - 0xDC00)), after)
          else some ('\uFFFD', rest)
        | none => some ('\uFFFD', rest)
      | _ => some ('\uFFFD', rest)
    else if 0xDC00 ≤ high && high < 0xE000 then some ('\uFFFD', rest)
    else some (Char.ofNat high, rest)
  | '\\' :: c :: cs => (escapeChar? c).map (·, cs)
  | c :: cs => if c.toNat < 0x20 || c = '\\' then none else some (c, cs)

/-- The rest of a string behind its opening quote; `fuel` bounds the number of characters. -/
def string? (fuel : Nat) (acc cs : List Char) : Option (String × List Char) :=
  match fuel with
  | 0 => none
  | fuel + 1 =>
    match cs with
    | '"' :: cs => some (String.ofList acc.reverse, cs)
    | cs =>
      match stringChar? cs with
      | some (c, rest) => string? fuel (c :: acc) rest
      | none => none

/-- The value of decimal digits. -/
def decimal (cs : List Char) : Nat :=
  cs.foldl (fun n c => n * 10 + (c.toNat - '0'.toNat)) 0

/-- The exponent behind the digits of a number, if one stands there. -/
def exponent? : List Char → Option (Int × List Char)
  | e :: cs =>
    if e = 'e' || e = 'E' then
      let (negative, cs) := match cs with
        | '-' :: cs => (true, cs)
        | '+' :: cs => (false, cs)
        | cs => (false, cs)
      let ds := cs.takeWhile Char.isDigit
      if ds.isEmpty then none
      else some (if negative then -(decimal ds : Int) else decimal ds, cs.dropWhile Char.isDigit)
    else none
  | [] => none

/-- The digits behind a decimal point, if they stand there. -/
def fraction? : List Char → Option (List Char × List Char)
  | '.' :: cs =>
    let ds := cs.takeWhile Char.isDigit
    if ds.isEmpty then none else some (ds, cs.dropWhile Char.isDigit)
  | _ => none

/-- A number of that sign. Digits alone are an integer; a fraction or an exponent makes a
floating-point number. -/
def number? (negative : Bool) (cs : List Char) : Option (Datum × List Char) :=
  let ds := match cs with
    | '0' :: _ => ['0']
    | _ => cs.takeWhile Char.isDigit
  if ds.isEmpty then none
  else
    let rest := cs.drop ds.length
    let (fraction, rest) := (fraction? rest).getD ([], rest)
    let exponent := exponent? rest
    if fraction.isEmpty && exponent.isNone then
      some (.int (if negative then -(decimal ds : Int) else decimal ds), rest)
    else
      let (exponent, rest) := exponent.getD (0, rest)
      some (.float (Binary.ofDecimal negative (decimal (ds ++ fraction))
        (exponent - fraction.length)), rest)

/-- The words that stand for values. -/
def literals : List (List Char × Datum) :=
  [("null".toList, .null), ("true".toList, .bool true), ("false".toList, .bool false),
    ("NaN".toList, .float .undefined), ("Infinity".toList, .float (.infinite false)),
    ("-Infinity".toList, .float (.infinite true))]

/-- A word or a number. -/
def scalar? (cs : List Char) : Option (Datum × List Char) :=
  match literals.findSome? fun l => (l.1.isPrefixOf? cs).map (l.2, ·) with
  | some found => some found
  | none =>
    match cs with
    | '-' :: cs => number? true cs
    | cs => number? false cs

mutual

/-- A value at the start of a text; `fuel` bounds the number of steps. -/
def value? (fuel : Nat) (cs : List Char) : Option (Datum × List Char) :=
  match fuel with
  | 0 => none
  | fuel + 1 =>
    match cs with
    | '"' :: cs => (string? fuel [] cs).map fun (s, rest) => (.text s, rest)
    | '[' :: cs =>
      match skip cs with
      | ']' :: rest => some (.list [], rest)
      | rest => items? fuel [] rest
    | '\x7b' :: cs =>
      match skip cs with
      | '\x7d' :: rest => some (.object [], rest)
      | rest => fields? fuel [] rest
    | cs => scalar? cs

/-- The items of a list up to its closing bracket. -/
def items? (fuel : Nat) (acc : List Datum) (cs : List Char) : Option (Datum × List Char) :=
  match fuel with
  | 0 => none
  | fuel + 1 =>
    match value? fuel cs with
    | none => none
    | some (v, rest) =>
      match skip rest with
      | ',' :: rest => items? fuel (v :: acc) (skip rest)
      | ']' :: rest => some (.list (v :: acc).reverse, rest)
      | _ => none

/-- The fields of an object up to its closing brace. -/
def fields? (fuel : Nat) (acc : List (String × Datum)) (cs : List Char) :
    Option (Datum × List Char) :=
  match fuel with
  | 0 => none
  | fuel + 1 =>
    match cs with
    | '"' :: cs =>
      match string? fuel [] cs with
      | none => none
      | some (key, rest) =>
        match skip rest with
        | ':' :: rest =>
          match value? fuel (skip rest) with
          | none => none
          | some (v, rest) =>
            match skip rest with
            | ',' :: rest => fields? fuel ((key, v) :: acc) (skip rest)
            | '\x7d' :: rest => some (.ofFields ((key, v) :: acc).reverse, rest)
            | _ => none
        | _ => none
    | _ => none

end

/-- The value of a JSON document. -/
def parse? (cs : List Char) : Option Datum :=
  match value? (2 * cs.length + 2) (skip cs) with
  | some (v, rest) => if (skip rest).isEmpty then some v else none
  | none => none

end EntryFlow.Json
