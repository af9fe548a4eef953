import EntryFlow.Name.Words
import Mathlib.Data.List.Infix

/-!
# The words of an identifier and its letters

Splitting a text into words loses no letter and no digit, and no word reaches over any other
character. So the words of two texts with such a character between them are those of the one and
then those of the other, and what one of them mentions the whole text mentions.

## Main statements

* `Name.flatten_splitWords`: the words are made of the letters and digits, in order.
* `Name.splitWords_append_cons`: the words before and behind a separator.
* `Name.mentions_iff`: what is mentioned is a contiguous part of the words.
* `Name.wordsOf_separated`: these laws for texts.
-/

namespace EntryFlow.Name

/-! ## Letters and digits -/

theorem isAlphanum_eq_false_iff {c : Char} :
    c.isAlphanum = false ↔ c.isUpper = false ∧ c.isLower = false ∧ c.isDigit = false := by
  change (c.isUpper || c.isLower || c.isDigit) = false ↔ _
  rw [Bool.or_eq_false_iff, Bool.or_eq_false_iff, and_assoc]

theorem splitWords_cons (afterCapital : Bool) (c : Char) (cs : List Char) :
    splitWords afterCapital (c :: cs) =
      if c.isAlphanum then
        match joins afterCapital c cs, splitWords c.isUpper cs with
        | true, w :: ws => (c :: w) :: ws
        | _, ws => [c] :: ws
      else splitWords c.isUpper cs := rfl

/-- Each letter and each digit belongs to one word. -/
theorem flatten_splitWords (afterCapital : Bool) (cs : List Char) :
    (splitWords afterCapital cs).flatten = cs.filter Char.isAlphanum := by
  induction cs generalizing afterCapital with
  | nil => rfl
  | cons c cs ih =>
    rw [splitWords_cons]
    by_cases hc : c.isAlphanum = true
    · rw [if_pos hc, List.filter_cons_of_pos hc, ← ih c.isUpper]
      -- the character goes in front of the first word of the rest, or is a word of its own
      split
      · rename_i hwords
        rw [hwords]
        rfl
      · rfl
    · rw [if_neg hc, List.filter_cons_of_neg hc, ih]

theorem ne_nil_of_mem_splitWords {afterCapital : Bool} {cs w : List Char}
    (h : w ∈ splitWords afterCapital cs) : w ≠ [] := by
  induction cs generalizing afterCapital w with
  | nil => cases h
  | cons c cs ih =>
    rw [splitWords_cons] at h
    split at h
    · split at h
      · rename_i hwords
        rcases List.mem_cons.mp h with rfl | h
        · exact List.cons_ne_nil _ _
        · exact ih (hwords ▸ List.mem_cons_of_mem _ h)
      · rcases List.mem_cons.mp h with rfl | h
        · exact List.cons_ne_nil _ _
        · exact ih h
    · exact ih h

theorem ne_empty_of_mem_wordsOf {text w : String} (h : w ∈ wordsOf text) : w ≠ "" := by
  obtain ⟨cs, hcs, rfl⟩ := List.mem_map.mp h
  simpa using ne_nil_of_mem_splitWords hcs

theorem join_wordsOf (text : String) :
    String.join (wordsOf text) =
      String.ofList ((text.toList.filter Char.isAlphanum).map Char.toLower) := by
  refine String.toList_inj.mp ?_
  rw [String.toList_join, wordsOf, List.flatMap_map, String.toList_ofList,
    ← flatten_splitWords false, List.map_flatten, List.flatMap_def]
  simp only [String.toList_ofList]

/-! ## Separators -/

/-- A word goes on into letters and digits only. -/
theorem splitWords_ne_nil_of_joins {afterCapital : Bool} {c : Char} {cs : List Char}
    (h : joins afterCapital c cs = true) : splitWords c.isUpper cs ≠ [] := by
  cases cs with
  | nil => cases h
  | cons d cs =>
    have hd : d.isAlphanum = true := by
      by_contra hd
      have hplain := isAlphanum_eq_false_iff.mp (Bool.eq_false_iff.mpr hd)
      simp [joins, hplain] at h
    rw [splitWords_cons, if_pos hd]
    split <;> exact List.cons_ne_nil _ _

variable {s : Char} (hs : s.isAlphanum = false)
include hs

/-- Whether a word goes on does not depend on what is behind a separator. -/
theorem joins_append_cons (afterCapital : Bool) (c : Char) (cs rest : List Char) :
    joins afterCapital c (cs ++ s :: rest) = joins afterCapital c cs := by
  have hplain := isAlphanum_eq_false_iff.mp hs
  rcases cs with _ | ⟨d, _ | ⟨e, cs⟩⟩
  · simp [joins, hplain]
  · simp [joins, hplain]
  · rfl

theorem splitWords_append_cons (afterCapital : Bool) (cs rest : List Char) :
    splitWords afterCapital (cs ++ s :: rest) =
      splitWords afterCapital cs ++ splitWords false rest := by
  induction cs generalizing afterCapital with
  | nil =>
    rw [List.nil_append, splitWords_cons, if_neg (by simp [hs]), (isAlphanum_eq_false_iff.mp hs).1]
    rfl
  | cons c cs ih =>
    rw [List.cons_append, splitWords_cons, splitWords_cons, joins_append_cons hs, ih]
    by_cases hc : c.isAlphanum = true
    · rw [if_pos hc, if_pos hc]
      cases hjoins : joins afterCapital c cs with
      | false => rfl
      | true =>
        obtain ⟨w, ws, hwords⟩ := List.exists_cons_of_ne_nil (splitWords_ne_nil_of_joins hjoins)
        rw [hwords]
        rfl
    · rw [if_neg hc, if_neg hc]

theorem wordsOf_append (a b : String) :
    wordsOf (a ++ String.singleton s ++ b) = wordsOf a ++ wordsOf b := by
  have htext : (a ++ String.singleton s ++ b).toList = a.toList ++ s :: b.toList := by simp
  rw [wordsOf, htext, splitWords_append_cons hs, List.map_append]
  rfl

omit hs

/-! ## What is mentioned -/

theorem runsThrough_iff {wanted words : List String} :
    mentions.runsThrough wanted words = true ↔ wanted <:+: words := by
  induction words with
  | nil => simp [mentions.runsThrough]
  | cons w words ih =>
    rw [mentions.runsThrough, Bool.or_eq_true, ih, List.isPrefixOf_iff_prefix,
      List.infix_cons_iff]

theorem mentions_iff {words : List String} {marker : String} :
    mentions words marker = true ↔ wordsOf marker ≠ [] ∧ wordsOf marker <:+: words := by
  rw [mentions, Bool.and_eq_true, runsThrough_iff]
  simp

/-- What is mentioned is mentioned in whatever goes on around it. -/
theorem mentions_mono {words more : List String} (hmore : words <:+: more) {marker : String}
    (h : mentions words marker = true) : mentions more marker = true :=
  have ⟨hne, hwords⟩ := mentions_iff.mp h
  mentions_iff.mpr ⟨hne, hwords.trans hmore⟩

include hs

/-- The words of a text are not empty and, joined, are its ASCII letters and digits in lower case.
The words of two texts with another character between them are those of the one and then those of
the other, so what is mentioned in either is mentioned in both. -/
theorem wordsOf_separated (text a b marker : String) :
    (∀ w ∈ wordsOf text, w ≠ "") ∧
      String.join (wordsOf text) =
        String.ofList ((text.toList.filter Char.isAlphanum).map Char.toLower) ∧
      wordsOf (a ++ String.singleton s ++ b) = wordsOf a ++ wordsOf b ∧
      (mentions (wordsOf a) marker = true →
        mentions (wordsOf (a ++ String.singleton s ++ b)) marker = true) ∧
      (mentions (wordsOf b) marker = true →
        mentions (wordsOf (a ++ String.singleton s ++ b)) marker = true) := by
  refine ⟨fun w => ne_empty_of_mem_wordsOf, join_wordsOf text, wordsOf_append hs a b,
    mentions_mono ?_, mentions_mono ?_⟩
  · rw [wordsOf_append hs]
    exact (List.prefix_append _ _).isInfix
  · rw [wordsOf_append hs]
    exact (List.suffix_append _ _).isInfix

omit hs

/-- The words of a receiver and of the method that is called on it. -/
theorem wordsOf_separated_receiver :
    '.'.isAlphanum = false ∧
      ((∀ w ∈ wordsOf "findJPAStore2_x", w ≠ "") ∧
        String.join (wordsOf "findJPAStore2_x") =
          String.ofList (("findJPAStore2_x".toList.filter Char.isAlphanum).map Char.toLower) ∧
        wordsOf ("orderRepository" ++ String.singleton '.' ++ "findById") =
          wordsOf "orderRepository" ++ wordsOf "findById" ∧
        (mentions (wordsOf "orderRepository") "Repository" = true →
          mentions (wordsOf ("orderRepository" ++ String.singleton '.' ++ "findById"))
            "Repository" = true) ∧
        (mentions (wordsOf "findById") "Repository" = true →
          mentions (wordsOf ("orderRepository" ++ String.singleton '.' ++ "findById"))
            "Repository" = true)) ∧
      wordsOf "findJPAStore2_x" = ["find", "jpa", "store2", "x"] ∧
      mentions (wordsOf "orderRepository") "Repository" = true :=
  ⟨by decide, wordsOf_separated (by decide) _ _ _ _, by decide +kernel, by decide +kernel⟩

end EntryFlow.Name
