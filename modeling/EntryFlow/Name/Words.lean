/-!
# Words of an identifier

An identifier is read as a sequence of words: `orderRepository` as `order`, `repository`, and
`JPAStore` as `jpa`, `store`. Only ASCII letters and digits belong to words, so lower case is that
of ASCII.

## Main definitions

* `Name.joins`: whether a character belongs to the same word as the one behind it.
* `Name.wordsOf`, `Name.mentions`.
-/

namespace EntryFlow.Name

/-- Whether a word goes on from `c` into `rest`. A capital starts the word of a small letter
behind it, and closes up with a capital behind it unless that one starts a word of its own; a digit
closes up with one capital but not with a run of them. -/
def joins (afterCapital : Bool) (c : Char) (rest : List Char) : Bool :=
  match rest with
  | [] => false
  | d :: rest =>
    if c.isUpper then
      if d.isLower then true
      else if d.isDigit then !afterCapital
      else if d.isUpper then !(rest.head?.map Char.isLower).getD false
      else false
    else d.isLower || d.isDigit

/-- The words of a text in which the character before was a capital or not. -/
def splitWords (afterCapital : Bool) : List Char → List (List Char)
  | [] => []
  | c :: cs =>
    let rest := splitWords c.isUpper cs
    if c.isUpper || c.isLower || c.isDigit then
      match joins afterCapital c cs, rest with
      | true, w :: ws => (c :: w) :: ws
      | _, ws => [c] :: ws
    else rest

/-- The words of an identifier or dotted name in lower case. -/
def wordsOf (text : String) : List String :=
  (splitWords false text.toList).map fun w => String.ofList (w.map Char.toLower)

/-- Whether the words of `marker`, at least one, stand next to each other among `words`. -/
def mentions (words : List String) (marker : String) : Bool :=
  let wanted := wordsOf marker
  !wanted.isEmpty && runsThrough wanted words
where
  /-- Whether `wanted` is a contiguous part of a list. -/
  runsThrough (wanted : List String) : List String → Bool
    | [] => wanted.isEmpty
    | w :: ws => wanted.isPrefixOf (w :: ws) || runsThrough wanted ws

end EntryFlow.Name
