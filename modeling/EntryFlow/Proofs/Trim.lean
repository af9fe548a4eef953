import EntryFlow.Text.Blank
import Mathlib.Data.List.TakeWhile

/-!
# Blanks around a text

A text is trimmed when it neither starts nor ends with a blank. Trimming gives a trimmed text,
changes a trimmed text in nothing, and does not see blanks that are added at the end.

## Main definitions

* `Text.Trimmed`: texts without blanks at their ends.

## Main statements

* `Text.trim_eq_self`, `Text.trimmed_trim`: the trimmed texts are those that trimming gives.
* `Text.trim_append_blanks`: blanks at the end are not seen.
* `Text.filter_squeeze`: only blanks get lost when a text is brought to one line.
-/

namespace EntryFlow.Text

/-- The text neither starts nor ends with a blank. -/
structure Trimmed (cs : List Char) : Prop where
  head : ∀ c ∈ cs.head?, isBlank c = false
  last : ∀ c ∈ cs.getLast?, isBlank c = false

instance (cs : List Char) : Decidable (Trimmed cs) :=
  -- only the given character is looked at, not all characters that there are
  letI (c? : Option Char) : Decidable (∀ c ∈ c?, isBlank c = false) := Option.decidableForallMem c?
  decidable_of_iff ((∀ c ∈ cs.head?, isBlank c = false) ∧ ∀ c ∈ cs.getLast?, isBlank c = false)
    ⟨fun ⟨a, b⟩ => ⟨a, b⟩, fun ⟨a, b⟩ => ⟨a, b⟩⟩

theorem Trimmed.of_forall {cs : List Char} (h : ∀ c ∈ cs, isBlank c = false) : Trimmed cs :=
  ⟨fun c hc => h c (List.mem_of_head? hc), fun c hc => h c (List.mem_of_getLast? hc)⟩

theorem Trimmed.append {xs ys : List Char} (hx : Trimmed xs) (hy : Trimmed ys) :
    Trimmed (xs ++ ys) where
  head c hc := by
    rw [List.head?_append] at hc
    cases hxs : xs.head? with
    | none =>
      rw [hxs, Option.none_or] at hc
      exact hy.head c hc
    | some d =>
      rw [hxs, Option.some_or] at hc
      exact hx.head c (hxs.trans hc)
  last c hc := by
    rw [List.getLast?_append] at hc
    cases hys : ys.getLast? with
    | none =>
      rw [hys, Option.none_or] at hc
      exact hx.last c hc
    | some d =>
      rw [hys, Option.some_or] at hc
      exact hy.last c (hys.trans hc)

theorem trimStart_eq_self {cs : List Char} (h : ∀ c ∈ cs.head?, isBlank c = false) :
    trimStart cs = cs := by
  cases cs with
  | nil => rfl
  | cons c cs => exact List.dropWhile_cons_of_neg (by simp [h c rfl])

theorem trimEnd_eq_self {cs : List Char} (h : ∀ c ∈ cs.getLast?, isBlank c = false) :
    trimEnd cs = cs := by
  have hreverse : cs.reverse.dropWhile isBlank = cs.reverse := by
    refine trimStart_eq_self fun c hc => h c ?_
    rwa [List.head?_reverse] at hc
  rw [trimEnd, hreverse, List.reverse_reverse]

/-- A trimmed text stays as it is. -/
theorem trim_eq_self {cs : List Char} (h : Trimmed cs) : trim cs = cs := by
  rw [trim, trimStart_eq_self h.head, trimEnd_eq_self h.last]

/-! ## What trimming gives -/

theorem head?_trimStart (cs : List Char) : ∀ c ∈ (trimStart cs).head?, isBlank c = false := by
  intro c hc
  have hnot := List.head?_dropWhile_not isBlank cs
  rw [show cs.dropWhile isBlank = trimStart cs from rfl, hc] at hnot
  simpa using hnot

theorem getLast?_trimEnd (cs : List Char) : ∀ c ∈ (trimEnd cs).getLast?, isBlank c = false := by
  intro c hc
  rw [trimEnd, List.getLast?_reverse] at hc
  exact head?_trimStart _ c hc

theorem prefix_trimEnd (cs : List Char) : trimEnd cs <+: cs := by
  rw [trimEnd, ← List.reverse_suffix, List.reverse_reverse]
  exact List.dropWhile_suffix _

theorem mem_of_mem_trim {c : Char} {cs : List Char} (h : c ∈ trim cs) : c ∈ cs :=
  (List.dropWhile_suffix _).mem ((prefix_trimEnd _).mem h)

/-- What is dropped at the end is blank. -/
theorem exists_eq_trimEnd_append (cs : List Char) :
    ∃ bs, (∀ c ∈ bs, isBlank c = true) ∧ cs = trimEnd cs ++ bs := by
  refine ⟨(cs.reverse.takeWhile isBlank).reverse, fun c hc => ?_, ?_⟩
  · exact List.mem_takeWhile_imp (List.mem_reverse.mp hc)
  · rw [trimEnd, ← List.reverse_append, List.takeWhile_append_dropWhile, List.reverse_reverse]

/-- Trimming gives a trimmed text. -/
theorem trimmed_trim (cs : List Char) : Trimmed (trim cs) where
  head c hc := by
    obtain ⟨rest, hrest⟩ := prefix_trimEnd (trimStart cs)
    refine head?_trimStart cs c ?_
    rw [← hrest, List.head?_append, show (trimEnd (trimStart cs)).head? = some c from hc]
    rfl
  last := getLast?_trimEnd _

theorem trimStart_eq_nil_iff {cs : List Char} :
    trimStart cs = [] ↔ ∀ c ∈ cs, isBlank c = true :=
  List.dropWhile_eq_nil_iff

theorem trim_eq_nil_iff {cs : List Char} : trim cs = [] ↔ ∀ c ∈ cs, isBlank c = true := by
  constructor
  · intro h
    refine trimStart_eq_nil_iff.mp ?_
    by_contra hne
    -- the first character that is left in front is no blank, so it is left at the end too
    obtain ⟨c, hc⟩ := Option.isSome_iff_exists.mp (List.isSome_head?.mpr hne)
    have hblank := head?_trimStart cs c hc
    have hall : ∀ d ∈ (trimStart cs).reverse, isBlank d = true :=
      List.dropWhile_eq_nil_iff.mp (List.reverse_eq_nil_iff.mp h)
    have hc := hall c (List.mem_reverse.mpr (List.mem_of_head? hc))
    simp [hblank] at hc
  · intro h
    rw [trim, trimStart_eq_nil_iff.mpr h]
    rfl

/-! ## Characters that are added -/

theorem trimEnd_append_blanks (cs : List Char) {bs : List Char}
    (h : ∀ c ∈ bs, isBlank c = true) : trimEnd (cs ++ bs) = trimEnd cs := by
  have hreverse : ∀ c ∈ bs.reverse, isBlank c = true := fun c hc => h c (List.mem_reverse.mp hc)
  rw [trimEnd, List.reverse_append, List.dropWhile_append_of_pos hreverse, trimEnd]

theorem trim_append_blanks (cs : List Char) {bs : List Char} (h : ∀ c ∈ bs, isBlank c = true) :
    trim (cs ++ bs) = trim cs := by
  by_cases hcs : ∀ c ∈ cs, isBlank c = true
  · have hall : ∀ c ∈ cs ++ bs, isBlank c = true := by
      intro c hc
      exact (List.mem_append.mp hc).elim (hcs c) (h c)
    rw [trim_eq_nil_iff.mpr hcs, trim_eq_nil_iff.mpr hall]
  · have hne : (cs.dropWhile isBlank).isEmpty = false :=
      List.isEmpty_eq_false_iff.mpr (mt trimStart_eq_nil_iff.mp hcs)
    rw [trim, trimStart, List.dropWhile_append, hne]
    exact trimEnd_append_blanks _ h

/-- Blanks are dropped in front up to a character that is none. -/
theorem trimStart_append_cons (cs : List Char) {c : Char} (hc : isBlank c = false)
    (rest : List Char) : trimStart (cs ++ c :: rest) = trimStart cs ++ c :: rest := by
  rw [trimStart, List.dropWhile_append]
  split
  · rename_i hempty
    rw [List.dropWhile_cons_of_neg (by simp [hc]), trimStart, List.isEmpty_iff.mp hempty]
    rfl
  · rfl

theorem trimEnd_append_cons (cs : List Char) {c : Char} (hc : isBlank c = false)
    (rest : List Char) : trimEnd (cs ++ c :: rest) = cs ++ c :: trimEnd rest := by
  have hreverse : (cs ++ c :: rest).reverse = rest.reverse ++ c :: cs.reverse := by simp
  have hfront := trimStart_append_cons rest.reverse hc cs.reverse
  rw [trimStart, trimStart] at hfront
  rw [trimEnd, hreverse, hfront, trimEnd]
  simp

/-- A character in front is dropped at the end if it is blank and only blanks follow. -/
theorem trimEnd_cons (c : Char) (cs : List Char) :
    trimEnd (c :: cs) =
      if isBlank c = true ∧ trimEnd cs = [] then [] else c :: trimEnd cs := by
  cases hc : isBlank c with
  | false => simpa using trimEnd_append_cons [] hc cs
  | true =>
    rw [trimEnd, List.reverse_cons, List.dropWhile_append]
    by_cases hcs : cs.reverse.dropWhile isBlank = []
    · simp [trimEnd, hcs, hc]
    · simp [trimEnd, hcs]

theorem trim_append_cons (xs : List Char) {c : Char} (hc : isBlank c = false) (ys : List Char) :
    trim (xs ++ c :: ys) = trimStart xs ++ c :: trimEnd ys := by
  rw [trim, trimStart_append_cons xs hc, trimEnd_append_cons _ hc]

theorem trimStart_blanks_append {bs : List Char} (h : ∀ c ∈ bs, isBlank c = true)
    (cs : List Char) : trimStart (bs ++ cs) = trimStart cs :=
  List.dropWhile_append_of_pos h

theorem trim_blanks_append {bs : List Char} (h : ∀ c ∈ bs, isBlank c = true) (cs : List Char) :
    trim (bs ++ cs) = trim cs := by
  rw [trim, trimStart_blanks_append h, trim]

/-- Of blanks behind a text those are dropped in front that no other character precedes. -/
theorem exists_trimStart_append (cs : List Char) {bs : List Char}
    (h : ∀ c ∈ bs, isBlank c = true) :
    ∃ left, (∀ c ∈ left, isBlank c = true) ∧ (bs = [] → left = []) ∧
      trimStart (cs ++ bs) = trimStart cs ++ left := by
  by_cases hcs : ∀ c ∈ cs, isBlank c = true
  · refine ⟨[], by simp, fun _ => rfl, ?_⟩
    rw [trimStart_blanks_append hcs, trimStart_eq_nil_iff.mpr h, trimStart_eq_nil_iff.mpr hcs]
    rfl
  · have hne : (cs.dropWhile isBlank).isEmpty = false :=
      List.isEmpty_eq_false_iff.mpr (mt trimStart_eq_nil_iff.mp hcs)
    refine ⟨bs, h, id, ?_⟩
    rw [trimStart, List.dropWhile_append, hne]
    rfl

/-- Of blanks before a text those are dropped at the end that no other character follows. -/
theorem exists_trimEnd_append {bs : List Char} (h : ∀ c ∈ bs, isBlank c = true)
    (cs : List Char) :
    ∃ left, (∀ c ∈ left, isBlank c = true) ∧ trimEnd (bs ++ cs) = left ++ trimEnd cs := by
  have hreverse : ∀ c ∈ bs.reverse, isBlank c = true := fun c hc => h c (List.mem_reverse.mp hc)
  obtain ⟨left, hleft, -, hfront⟩ := exists_trimStart_append cs.reverse hreverse
  refine ⟨left.reverse, fun c hc => hleft c (List.mem_reverse.mp hc), ?_⟩
  rw [trimStart, trimStart] at hfront
  rw [trimEnd, List.reverse_append, hfront, List.reverse_append, trimEnd]

/-! ## Texts on one line -/

theorem words_cons (c : Char) (cs : List Char) :
    words (c :: cs) =
      if isBlank c then words cs
      else
        match cs, words cs with
        | d :: _, w :: ws => if isBlank d then [c] :: w :: ws else (c :: w) :: ws
        | _, ws => [c] :: ws := rfl

theorem flatten_words (cs : List Char) : (words cs).flatten = cs.filter (!isBlank ·) := by
  induction cs with
  | nil => rfl
  | cons c cs ih =>
    by_cases hc : isBlank c = true
    · rw [words_cons, if_pos hc, ih, List.filter_cons_of_neg (by simp [hc])]
    · rw [words_cons, if_neg hc, List.filter_cons_of_pos (by simp [hc]), ← ih]
      -- the character begins a word, or goes in front of the first word of the rest
      split
      · rename_i d rest w ws hwords
        rw [hwords]
        split <;> rfl
      · rfl

theorem filter_intercalate {p : Char → Bool} (hp : p ' ' = false) (ws : List (List Char)) :
    ([' '].intercalate ws).filter p = ws.flatten.filter p := by
  induction ws with
  | nil => rfl
  | cons w ws ih =>
    cases ws with
    | nil => simp
    | cons v ws => simp_all [List.intercalate_cons_cons]

/-- Only blanks get lost when a text is brought to one line. -/
theorem filter_squeeze {p : Char → Bool} (hp : ∀ c, isBlank c = true → p c = false)
    (cs : List Char) : (squeeze cs).filter p = cs.filter p := by
  rw [squeeze, filter_intercalate (hp ' ' (by decide)), flatten_words, List.filter_filter]
  refine List.filter_congr fun c _ => ?_
  cases hblank : isBlank c with
  | false => simp
  | true => simp [hp c hblank]

end EntryFlow.Text
