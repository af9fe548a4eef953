/-!
# Regular expressions

A regular expression matches a front of a text, often several of them. They stand in an order of
preference: of a choice those of the first branch come first, an optional part is rather there than
not, and a repetition rather goes on than stops. The first one is the match.

## Main definitions

* `Regex.ends`: what the fronts leave of a text, in order of preference.
* `Regex.first?`: what the match leaves.
* `Regex.findAll`: the matches in a text.
-/

namespace EntryFlow.Text

/-- A regular expression over classes of characters. -/
inductive Regex where
  /-- A character of a class. -/
  | one (accepts : Char → Bool)
  /-- One character of a class or more. -/
  | many (accepts : Char → Bool)
  /-- Nothing, where no character of a class follows. -/
  | notBefore (accepts : Char → Bool)
  | optional (r : Regex)
  | seq (r₁ r₂ : Regex)
  | either (r₁ r₂ : Regex)

namespace Regex

/-- What the fronts that match leave of a text, in order of preference. -/
def ends : Regex → List Char → List (List Char)
  | one accepts, cs =>
    match cs with
    | [] => []
    | c :: cs => if accepts c then [cs] else []
  | many accepts, cs => endsOfMany accepts cs
  | notBefore accepts, cs => if cs.head?.any accepts then [] else [cs]
  | optional r, cs => r.ends cs ++ [cs]
  | seq r₁ r₂, cs => (r₁.ends cs).flatMap r₂.ends
  | either r₁ r₂, cs => r₁.ends cs ++ r₂.ends cs
where
  /-- What is left after characters of a class, the more of them the better. -/
  endsOfMany (accepts : Char → Bool) : List Char → List (List Char)
    | [] => []
    | c :: cs => if accepts c then endsOfMany accepts cs ++ [cs] else []

/-- What the match leaves of a text. -/
def first? (r : Regex) (cs : List Char) : Option (List Char) :=
  (r.ends cs).head?

/-- The matches in a text from left to right, each behind the one before. Matches without a
character are passed over. -/
def findAll (r : Regex) : List Char → List (List Char)
  | [] => []
  | c :: cs =>
    match r.first? (c :: cs) with
    | some rest =>
      if rest.length < (c :: cs).length then
        (c :: cs).take ((c :: cs).length - rest.length) :: findAll r rest
      else findAll r cs
    | none => findAll r cs
termination_by cs => cs.length
decreasing_by all_goals simp only [List.length_cons] at *; omega

end Regex

end EntryFlow.Text
