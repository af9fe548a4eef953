import EntryFlow.Datum.Yaml.Scalar

/-!
# Tokens of a YAML text

The marks, names and scalars of a text. Blocks have no marks of their own, so their starts and ends
are tokens that follow from the indentation.

## Main definitions

* `Yaml.Token`.
* `Yaml.anchorName?`, `Yaml.tagName?`, `Yaml.directive?`: readers of single tokens.
-/

namespace EntryFlow.Yaml

/-- A token. -/
inductive Token where
  /-- The version of the language that a document asks for. -/
  | version (major : Nat)
  /-- A short form for the beginning of tags. -/
  | tagHandle (handle full : String)
  /-- A directive that is passed over. -/
  | reserved
  | documentStart
  | documentEnd
  | blockList
  | blockMap
  | blockEnd
  | listStart
  | listEnd
  | mapStart
  | mapEnd
  | comma
  | dash
  | key
  | value
  | alias (name : String)
  | anchor (name : String)
  /-- A tag: the short form of its beginning, if it has one, and the rest. -/
  | tag (handle : Option String) (rest : String)
  | scalar (isPlain : Bool) (text : String)
  deriving DecidableEq, Repr

/-- The characters of a name. -/
def isNameChar (c : Char) : Bool :=
  c.isAlphanum || c = '-' || c = '_'

/-- The characters of a tag behind its handle. -/
def isTagChar (c : Char) : Bool :=
  c.isAlphanum || "-;/?:@&=+$,_.!~*'()[]".toList.contains c

/-- The name of an anchor or an alias and how many characters it takes with its mark. -/
def anchorName? (cs : List Char) : Option (String × Nat) :=
  let name := (cs.drop 1).takeWhile isNameChar
  let behind := cs.drop (name.length + 1)
  let ends := endsWord behind || "?:,]\x7d%@`".toList.contains (behind.headD ' ')
  if name.isEmpty || !ends then none else some (String.ofList name, name.length + 1)

/-- The bytes that stand behind percent signs, and how many characters they take. -/
def percentBytes : List Char → List UInt8 × Nat
  | '%' :: a :: b :: cs =>
    match Json.hexNumber? [a, b] with
    | some n =>
      let (bytes, count) := percentBytes cs
      (UInt8.ofNat n :: bytes, count + 3)
    | none => ([], 0)
  | _ => ([], 0)

/-- The part of a tag behind its handle: its text and how many characters it takes. `fuel` bounds
the number of parts. -/
def tagRest? (fuel : Nat) (cs : List Char) : Option (List Char × Nat) :=
  match fuel with
  | 0 => none
  | fuel + 1 =>
    let run := cs.takeWhile isTagChar
    match cs.drop run.length with
    | '%' :: more =>
      let (bytes, count) := percentBytes ('%' :: more)
      if count = 0 then none
      else
        match String.fromUTF8? ⟨bytes.toArray⟩, tagRest? fuel (('%' :: more).drop count) with
        | some text, some (others, n) => some (run ++ text.toList ++ others, run.length + count + n)
        | _, _ => none
    | _ => some (run, run.length)

/-- The part of a tag behind its handle, which is not empty. -/
def tagTail? (cs : List Char) : Option (List Char × Nat) :=
  (tagRest? (cs.length + 1) cs).filter fun found => found.2 ≠ 0

/-- The handle of a tag: an exclamation mark, or a name between two of them. -/
def tagHandle? (cs : List Char) : Option (List Char) :=
  match cs with
  | '!' :: more =>
    if more.head? = some ' ' then some ['!']
    else
      let name := more.takeWhile isNameChar
      if (more.drop name.length).head? = some '!' then some ('!' :: name ++ ['!']) else none
  | _ => none

/-- Whether a tag has a handle with two exclamation marks. -/
def hasLongHandle (cs : List Char) : Bool :=
  ((cs.drop 1).takeWhile fun c => c ≠ ' ' && !isBreak c).contains '!'

/-- A tag and how many characters it takes. -/
def tagToken? (cs : List Char) : Option (Token × Nat) :=
  match cs.drop 1 with
  | '<' :: more =>
    match tagTail? more with
    | some (rest, count) =>
      if (more.drop count).head? = some '>' then
        some (.tag none (String.ofList rest), count + 3)
      else none
    | none => none
  | more =>
    if endsWord more then some (.tag none "!", 1)
    else
      let handle? := if hasLongHandle cs then tagHandle? cs else some ['!']
      match handle? with
      | none => none
      | some handle =>
        (tagTail? (cs.drop handle.length)).map fun (rest, count) =>
          (.tag (some (String.ofList handle)) (String.ofList rest), handle.length + count)

/-- A tag that is followed by a space or the end of its line. -/
def tagName? (cs : List Char) : Option (Token × Nat) :=
  (tagToken? cs).filter fun (_, count) =>
    let behind := cs.drop count
    endsLine behind || behind.head? = some ' '

/-- Digits of a version number. -/
def versionNumber? (cs : List Char) : Option (Nat × List Char) :=
  let digits := cs.takeWhile Char.isDigit
  if digits.isEmpty then none else some (Json.decimal digits, cs.drop digits.length)

/-- Whether a text goes on with a space or ends its line. -/
def endsField (cs : List Char) : Bool :=
  endsLine cs || cs.head? = some ' '

/-- The version that a directive asks for, and the text behind it. -/
def version? (cs : List Char) : Option (Token × List Char) := do
  let (major, rest) ← versionNumber? (cs.dropWhile (· = ' '))
  match rest with
  | '.' :: rest =>
    let (_, rest) ← versionNumber? rest
    if endsField rest then some (.version major, rest) else none
  | _ => none

/-- The handle that a directive declares, and the text behind it. -/
def handle? (cs : List Char) : Option (Token × List Char) := do
  let cs := cs.dropWhile (· = ' ')
  let handle ← tagHandle? cs
  match cs.drop handle.length with
  | ' ' :: rest =>
    let rest := rest.dropWhile (· = ' ')
    let (full, count) ← tagTail? rest
    let rest := rest.drop count
    if endsField rest then some (.tagHandle (String.ofList handle) (String.ofList full), rest)
    else none
  | _ => none

/-- A directive and how many characters it takes up to the end of its line. -/
def directive? (cs : List Char) : Option (Token × Nat) := do
  let name := (cs.drop 1).takeWhile isNameChar
  let behind := cs.drop (name.length + 1)
  if name.isEmpty || !endsField behind then none
  let (token, rest) ←
    if name = "YAML".toList then version? behind
    else if name = "TAG".toList then handle? behind
    else some (.reserved, behind.dropWhile (!isBreak ·))
  let rest := rest.drop (lineRest rest)
  if endsLine rest then some (token, cs.length - rest.length) else none

end EntryFlow.Yaml
