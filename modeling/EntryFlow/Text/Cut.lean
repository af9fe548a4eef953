/-!
# Cutting texts

Searching and cutting of lists of characters: up to a character, at its last occurrence, and
around every occurrence of a pattern.
-/

namespace EntryFlow.Text

/-- The part before and the part after the last `sep`. -/
def splitAtLast (sep : Char) : List Char → Option (List Char × List Char)
  | [] => none
  | c :: cs =>
    match splitAtLast sep cs with
    | some (before, after) => some (c :: before, after)
    | none => if c = sep then some ([], cs) else none

/-- The part after the last `sep`, or the whole text. -/
def afterLast (sep : Char) (cs : List Char) : List Char :=
  match splitAtLast sep cs with
  | some (_, after) => after
  | none => cs

/-- Whether `pattern` occurs in the text. -/
def occurs (pattern : List Char) : List Char → Bool
  | [] => pattern.isEmpty
  | c :: cs => pattern.isPrefixOf (c :: cs) || occurs pattern cs

/-- The text without the occurrences of `pattern`, which are looked for from the left and do not
overlap; `skip` characters of an occurrence are still to be dropped. -/
def removeFrom (pattern : List Char) (skip : Nat) : List Char → List Char
  | [] => []
  | c :: cs =>
    match skip with
    | n + 1 => removeFrom pattern n cs
    | 0 =>
      if pattern.isPrefixOf (c :: cs) then removeFrom pattern (pattern.length - 1) cs
      else c :: removeFrom pattern 0 cs

/-- The text without the occurrences of a pattern that is not empty. -/
def remove (pattern : List Char) (cs : List Char) : List Char :=
  removeFrom pattern 0 cs

end EntryFlow.Text
