/-!
# UTF-8

Reading of bytes as text. A malformed sequence is the longest beginning of a well-formed one, or
else a single byte; `decode` reports it as one gap, so that a reader may refuse the text or put a
replacement character there.

## Main definitions

* `decode`: the characters and gaps of a byte sequence.
* `decodeStrict?`, `decodeLossy`, `unifyLines`.
-/

namespace EntryFlow.Text

/-- What the first byte of a character promises: how many bytes follow, the range of the first of
them and the bits that the first byte carries. -/
def leadByte? (b : Nat) : Option (Nat × Nat × Nat × Nat) :=
  if b < 0x80 then some (0, 0x80, 0xBF, b)
  else if b < 0xC2 then none
  else if b < 0xE0 then some (1, 0x80, 0xBF, b - 0xC0)
  else if b < 0xF0 then
    some (2, if b = 0xE0 then 0xA0 else 0x80, if b = 0xED then 0x9F else 0xBF, b - 0xE0)
  else if b < 0xF5 then
    some (3, if b = 0xF0 then 0x90 else 0x80, if b = 0xF4 then 0x8F else 0xBF, b - 0xF0)
  else none

/-- Read bytes when `owed` bytes of a character with the bits `bits` are still to come, the next of
them between `low` and `high`. A gap is reported where a character breaks off. -/
def decodeFrom (owed low high bits : Nat) (acc : List (Option Char)) :
    List UInt8 → List (Option Char)
  | [] => (if owed = 0 then acc else none :: acc).reverse
  | b :: bs =>
    let n := b.toNat
    if owed ≠ 0 && low ≤ n && n ≤ high then
      let bits := bits * 64 + (n - 0x80)
      if owed = 1 then decodeFrom 0 0 0 0 (some (Char.ofNat bits) :: acc) bs
      else decodeFrom (owed - 1) 0x80 0xBF bits acc bs
    else
      let acc := if owed = 0 then acc else none :: acc
      match leadByte? n with
      | some (0, _, _, bits) => decodeFrom 0 0 0 0 (some (Char.ofNat bits) :: acc) bs
      | some (owed, low, high, bits) => decodeFrom owed low high bits acc bs
      | none => decodeFrom 0 0 0 0 (none :: acc) bs

/-- The characters of a byte sequence, with a gap for each malformed part. -/
def decode (bytes : List UInt8) : List (Option Char) :=
  decodeFrom 0 0 0 0 [] bytes

/-- The text that the bytes encode, if they are well formed. -/
def decodeStrict? (bytes : List UInt8) : Option (List Char) :=
  (decode bytes).mapM id

/-- The text that the bytes encode, with U+FFFD for each malformed part. -/
def decodeLossy (bytes : List UInt8) : List Char :=
  (decode bytes).map (·.getD '\uFFFD')

/-- The bytes of a text. -/
def encode (s : String) : List UInt8 :=
  s.toByteArray.toList

/-- Carriage returns, alone or before a line feed, become line feeds. -/
def unifyLines : List Char → List Char
  | [] => []
  | '\r' :: cs =>
    match cs with
    | '\n' :: _ => unifyLines cs
    | _ => '\n' :: unifyLines cs
  | c :: cs => c :: unifyLines cs

end EntryFlow.Text
