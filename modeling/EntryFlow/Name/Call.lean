import EntryFlow.Text.Blank
import EntryFlow.Text.Cut

/-!
# Call expressions

A call is written as text: a qualified signature `com.acme.Repo.save(User)`, a chain
`this.repo.findById(id).orElse(null)` or a bare name. This module reduces such a text to the names
that resolution works with.

## Main definitions

* `Call.callee?`: the text before the first argument list.
* `Call.unqualified`: the text without leading `this.` and `super.`.
* `Call.bare`: the characters outside all argument lists and type arguments.
* `Call.segments`: the dotted names of the bare text.
* `Call.emptyArguments`: the text with every argument list emptied.
-/

namespace EntryFlow.Call

open Text

/-- The text before the first argument list, or nothing when that is blank. -/
def callee? (signature : String) : Option String :=
  let name := trim ((trim signature.toList).takeWhile (· ≠ '('))
  if name.isEmpty then none else some (String.ofList name)

/-- The qualifiers by which a method names its own object. -/
def selfQualifiers : List (List Char) :=
  ["this.".toList, "super.".toList]

/-- The rest of a text after a self qualifier and the blanks behind it. -/
def dropQualifier? (cs : List Char) : Option (List Char) :=
  (selfQualifiers.findSome? (·.isPrefixOf? cs)).map trimStart

theorem length_lt_of_isPrefixOf? {p cs rest : List Char} (hp : p ≠ [])
    (h : p.isPrefixOf? cs = some rest) : rest.length < cs.length := by
  induction p generalizing cs with
  | nil => exact absurd rfl hp
  | cons a p ih =>
    cases cs with
    | nil => cases (show none = some rest from h)
    | cons b cs =>
      replace h : (if a == b then p.isPrefixOf? cs else none) = some rest := h
      split at h
      · cases p with
        | nil =>
          cases (show some cs = some rest from h)
          exact Nat.lt_succ_self _
        | cons c p => exact Nat.lt_succ_of_lt (ih (by simp) h)
      · cases h

theorem length_trimStart_le (cs : List Char) : (trimStart cs).length ≤ cs.length :=
  (List.dropWhile_suffix _).length_le

theorem length_lt_of_dropQualifier? {cs rest : List Char} (h : dropQualifier? cs = some rest) :
    rest.length < cs.length := by
  simp only [dropQualifier?, Option.map_eq_some_iff, selfQualifiers] at h
  obtain ⟨mid, hmid, rfl⟩ := h
  refine Nat.lt_of_le_of_lt (length_trimStart_le mid) ?_
  obtain ⟨p, hp, hpre⟩ := List.exists_of_findSome?_eq_some hmid
  refine length_lt_of_isPrefixOf? ?_ hpre
  rintro rfl
  simp at hp

/-- Drop self qualifiers, and the blanks behind each, as long as one leads. -/
def dropQualifiers (cs : List Char) : List Char :=
  match h : dropQualifier? cs with
  | some rest =>
    have := length_lt_of_dropQualifier? h
    dropQualifiers rest
  | none => cs
termination_by cs.length

/-- The trimmed text without leading self qualifiers. -/
def unqualified (raw : String) : String :=
  String.ofList (dropQualifiers (trim raw.toList))

/-- The characters outside argument lists and type arguments, when `paren` and `angle` brackets
are open. A closing bracket that closes nothing is dropped. -/
def bareFrom (paren angle : Nat) : List Char → List Char
  | [] => []
  | c :: cs =>
    if c = '(' then bareFrom (paren + 1) angle cs
    else if c = ')' then bareFrom (paren - 1) angle cs
    else if paren ≠ 0 then bareFrom paren angle cs
    else if c = '<' then bareFrom paren (angle + 1) cs
    else if c = '>' then bareFrom paren (angle - 1) cs
    else if angle ≠ 0 then bareFrom paren angle cs
    else c :: bareFrom paren angle cs

/-- The characters outside argument lists and type arguments. -/
def bare (cs : List Char) : List Char :=
  bareFrom 0 0 cs

/-- The dotted names of a call, without argument lists and type arguments. -/
def segments (call : String) : List String :=
  ((((bare call.toList).splitOn '.').map trim).filter (!·.isEmpty)).map String.ofList

/-- Keep what is outside the outermost parentheses, of which `depth` are open. -/
def emptyArgumentsFrom (depth : Nat) : List Char → List Char
  | [] => []
  | c :: cs =>
    if c = '(' then
      if depth = 0 then '(' :: emptyArgumentsFrom 1 cs else emptyArgumentsFrom (depth + 1) cs
    else if c = ')' then
      if depth ≤ 1 then ')' :: emptyArgumentsFrom 0 cs else emptyArgumentsFrom (depth - 1) cs
    else if depth = 0 then c :: emptyArgumentsFrom depth cs
    else emptyArgumentsFrom depth cs

/-- The text with every argument list emptied: `a.b(x, c(y)).d()` becomes `a.b().d()`. -/
def emptyArguments (text : String) : String :=
  String.ofList (emptyArgumentsFrom 0 text.toList)

end EntryFlow.Call
