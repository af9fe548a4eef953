import EntryFlow.Text.CaseTable

/-!
# Upper and lower case

Full case mapping: a character may become several, and a capital sigma that ends a word becomes
the final form.
-/

namespace EntryFlow.Text

/-- The lower case of a character, where its neighbours do not matter. -/
def lowerChar (c : Char) : List Char :=
  let n := c.toNat
  if n < 128 then [c.toLower]
  else
    match lowerExpansions.lookup n with
    | some ns => ns.map Char.ofNat
    | none => [((imageIn? lowerRuns n).map Char.ofNat).getD c]

/-- The upper case of a character. -/
def upperChar (c : Char) : List Char :=
  let n := c.toNat
  if n < 128 then [c.toUpper]
  else
    match upperExpansions.lookup n with
    | some ns => ns.map Char.ofNat
    | none => [((imageIn? upperRuns n).map Char.ofNat).getD c]

/-- Cased characters that count beside a sigma. -/
def isCased (c : Char) : Bool :=
  if c.toNat < 128 then c.isAlpha else inBounds casedBounds c.toNat

/-- Characters that are passed over when a sigma looks for its neighbours. -/
def isCaseIgnorable (c : Char) : Bool :=
  if c.toNat < 128 then c ∈ ['\'', '.', ':', '^', '`'] else inBounds caseIgnorableBounds c.toNat

/-- Whether the first character that is not ignorable is a cased one. -/
def meetsCased (cs : List Char) : Bool :=
  ((cs.dropWhile isCaseIgnorable).head?.map isCased).getD false

/-- Lower case of a text whose reversed beginning is `before`. -/
def lowerAfter (before : List Char) : List Char → List Char
  | [] => []
  | c :: cs =>
    let here :=
      if c = 'Σ' then [if meetsCased before && !meetsCased cs then 'ς' else 'σ'] else lowerChar c
    here ++ lowerAfter (c :: before) cs

/-- The text in lower case. -/
def lower (s : String) : String :=
  String.ofList (lowerAfter [] s.toList)

/-- The text in upper case. -/
def upper (s : String) : String :=
  String.ofList (s.toList.flatMap upperChar)

end EntryFlow.Text
