import EntryFlow.Settings.Sources

/-!
# Ignored paths

A path is ignored if one of the patterns matches it. A pattern for the first or for any component
that matches a directory also matches all that is below it. A pattern with a star in front looks at
the end of the path, so what it says of a directory tells nothing of what is in the directory.

## Main definitions

* `Settings.matchesPath`: whether a pattern matches a path.
* `Settings.isStarred`: the patterns with a star in front.
* `Settings.isIgnored`: whether one of some patterns matches a path.

## Main statements

* `Settings.ignores_eq`: patterns that are texts are looked at without a fault.
* `Settings.matchesPath_below`: patterns without a star are inherited from directories.
-/

namespace EntryFlow.Settings

/-- The characters of a path, with a slash for each backslash. -/
def slashed (path : List String) : List Char :=
  (pathText path).toList.map fun c => if c = '\\' then '/' else c

/-- Whether a pattern matches a path. -/
def matchesPath (pattern : String) (path : List String) : Bool :=
  patternMatches (slashed path) ((slashed path).splitOn '/') pattern.toList

/-- Whether a pattern has a star in front. -/
def isStarred (pattern : String) : Bool :=
  pattern.toList.head? == some '*'

/-- Whether one of some patterns matches a path. -/
def isIgnored (patterns : List String) (path : List String) : Bool :=
  patterns.any fun pattern => matchesPath pattern path

theorem anyMatches_texts (patterns path : List String) :
    anyMatches (slashed path) (patterns.map .text) = .ok (isIgnored patterns path) := by
  induction patterns with
  | nil => rfl
  | cons pattern patterns ih =>
    rw [List.map_cons, anyMatches, ih, isIgnored, isIgnored, List.any_cons, matchesPath]
    split
    · rename_i hmatch
      rw [hmatch, Bool.true_or]
    · rename_i hmatch
      rw [eq_false_of_ne_true hmatch, Bool.false_or]

theorem ignores_eq {s : Settings} {patterns : List String}
    (h : s.ignorePatterns = texts patterns) (path : List String) :
    s.ignores (pathText path) = .ok (isIgnored patterns path) := by
  rw [ignores, h]
  exact anyMatches_texts patterns path

theorem slashed_append {d r : List String} (hd : d ≠ []) (hr : r ≠ []) :
    slashed (d ++ r) = slashed d ++ '/' :: slashed r := by
  rw [slashed, pathText, String.intercalate_append_of_ne_nil hd hr, String.toList_append,
    String.toList_append, List.map_append, List.map_append, List.append_assoc]
  rfl

/-- A pattern without a star looks at components, and goes on matching when more of them follow. -/
theorem patternMatches_append {pattern path : List Char} {components : List (List Char)}
    (hstar : pattern.head? ≠ some '*') (hne : components ≠ [])
    (h : patternMatches path components pattern) (longer : List Char)
    (more : List (List Char)) : patternMatches longer (components ++ more) pattern := by
  obtain ⟨first, rest, rfl⟩ := List.exists_cons_of_ne_nil hne
  unfold patternMatches at h ⊢
  split at h
  · exact absurd rfl hstar
  · exact h
  · rw [List.contains_iff_mem] at h ⊢
    exact List.mem_append_left _ h

/-- A pattern without a star that matches a directory matches everything below it. -/
theorem matchesPath_below {pattern : String} (hstar : ¬ isStarred pattern) {d p : List String}
    (hd : d ≠ []) (hp : d <+: p) (h : matchesPath pattern d) : matchesPath pattern p := by
  obtain ⟨r, rfl⟩ := hp
  by_cases hr : r = []
  · rwa [hr, List.append_nil]
  · rw [matchesPath] at h ⊢
    rw [slashed_append hd hr, List.splitOn_append_cons_self]
    refine patternMatches_append (fun hhead => ?_) (List.splitOn_ne_nil _ _) h _ _
    rw [isStarred, hhead] at hstar
    exact hstar (beq_self_eq_true _)

end EntryFlow.Settings
