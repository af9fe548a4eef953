import EntryFlow.Proofs.IdentifierWords
import EntryFlow.Text.Regex

/-!
# The words of an identifier as matches

The words of a text are the matches of a regular expression: a run of small letters and digits with
the capital in front of it, if there is one, or else a run of capitals that no small letter follows.
A run of capitals in front of a small letter therefore gives its last capital back, but in front of
a digit it does not.

## Main definitions

* `Name.wordRegex`.

## Main statements

* `Name.opens_wordRegex`: the match at a letter or digit is the first word from there on.
* `Name.splitWords_eq_findAll`, `Name.wordsOf_eq_findAll`.
-/

namespace EntryFlow.Text.Regex

@[simp] theorem first?_either (r₁ r₂ : Regex) (cs : List Char) :
    (either r₁ r₂).first? cs = (r₁.first? cs).or (r₂.first? cs) :=
  List.head?_append

/-- Of a run the whole is the match. -/
theorem first?_many (accepts : Char → Bool) (c : Char) (cs : List Char) :
    (many accepts).first? (c :: cs) =
      if accepts c then some (cs.dropWhile accepts) else none := by
  by_cases hc : accepts c = true
  · rw [if_pos hc]
    induction cs generalizing c with
    | nil => simp [first?, ends, ends.endsOfMany, hc]
    | cons d cs ih =>
      have hcons : (many accepts).first? (c :: d :: cs) =
          ((many accepts).first? (d :: cs)).or (some (d :: cs)) := by
        simp [first?, ends, ends.endsOfMany, hc]
      by_cases hd : accepts d = true
      · rw [hcons, ih d hd, List.dropWhile_cons_of_pos hd]
        rfl
      · rw [hcons, List.dropWhile_cons_of_neg hd]
        simp [first?, ends, ends.endsOfMany, hd]
  · simp [first?, ends, ends.endsOfMany, hc]

end EntryFlow.Text.Regex

namespace EntryFlow.Name

open Text

/-! ## The regular expression -/

/-- Small letters and digits. -/
def isTail (c : Char) : Bool :=
  c.isLower || c.isDigit

/-- `[A-Z]?[a-z0-9]+` -/
def capitalized : Regex :=
  .seq (.optional (.one Char.isUpper)) (.many isTail)

/-- `[A-Z]+(?![a-z])` -/
def capitals : Regex :=
  .seq (.many Char.isUpper) (.notBefore Char.isLower)

/-- `[A-Z]?[a-z0-9]+|[A-Z]+(?![a-z])` -/
def wordRegex : Regex :=
  .either capitalized capitals

theorem isUpper_iff {c : Char} : c.isUpper = true ↔ 'A'.toNat ≤ c.toNat ∧ c.toNat ≤ 'Z'.toNat :=
  decide_eq_true_iff

theorem isLower_iff {c : Char} : c.isLower = true ↔ 'a'.toNat ≤ c.toNat ∧ c.toNat ≤ 'z'.toNat :=
  Bool.and_eq_true_iff.trans (and_congr decide_eq_true_iff decide_eq_true_iff)

theorem isDigit_iff {c : Char} : c.isDigit = true ↔ '0'.toNat ≤ c.toNat ∧ c.toNat ≤ '9'.toNat :=
  Bool.and_eq_true_iff.trans (and_congr decide_eq_true_iff decide_eq_true_iff)

theorem isUpper_eq_false_of_isTail {c : Char} (h : isTail c = true) : c.isUpper = false := by
  rw [isTail, Bool.or_eq_true, isLower_iff, isDigit_iff] at h
  rw [Bool.eq_false_iff, ne_eq, isUpper_iff]
  simp only [Char.reduceToNat] at h ⊢
  omega

theorem isDigit_eq_false_of_isLower {c : Char} (h : c.isLower = true) : c.isDigit = false := by
  rw [isLower_iff] at h
  rw [Bool.eq_false_iff, ne_eq, isDigit_iff]
  simp only [Char.reduceToNat] at h ⊢
  omega

theorem first?_capitalized_of_isTail {c : Char} (hc : isTail c = true) (cs : List Char) :
    capitalized.first? (c :: cs) = some (cs.dropWhile isTail) := by
  have hends : capitalized.ends (c :: cs) = (Regex.many isTail).ends (c :: cs) := by
    simp [capitalized, Regex.ends, isUpper_eq_false_of_isTail hc]
  rw [Regex.first?, hends, ← Regex.first?, Regex.first?_many, if_pos hc]

theorem first?_capitalized_of_isUpper {c : Char} (hc : c.isUpper = true) (cs : List Char) :
    capitalized.first? (c :: cs) = (Regex.many isTail).first? cs := by
  have htail : isTail c = false := by
    by_contra htail
    simp [isUpper_eq_false_of_isTail (by simpa using htail)] at hc
  simp [capitalized, Regex.first?, Regex.ends, Regex.ends.endsOfMany, hc, htail]

/-- A run of capitals ends where the run behind its first one does, and if there is no such run then
behind the first one, unless a small letter follows. -/
theorem first?_capitals_of_isUpper {c : Char} (hc : c.isUpper = true) (cs : List Char) :
    capitals.first? (c :: cs) =
      (capitals.first? cs).or (if cs.head?.any Char.isLower then none else some cs) := by
  have hends : capitals.ends (c :: cs) =
      capitals.ends cs ++ (Regex.notBefore Char.isLower).ends cs := by
    simp [capitals, Regex.ends, Regex.ends.endsOfMany, hc]
  rw [Regex.first?, hends, List.head?_append, Regex.ends]
  split <;> rfl

theorem first?_capitals_of_not_isUpper {c : Char} (hc : c.isUpper = false) (cs : List Char) :
    capitals.first? (c :: cs) = none := by
  simp [capitals, Regex.first?, Regex.ends, Regex.ends.endsOfMany, hc]

/-! ## The first word -/

/-- What comes before a character matters only for a capital with a digit behind it. -/
theorem splitWords_congr {c : Char} {cs : List Char}
    (h : c.isUpper = false ∨ cs.head?.any Char.isDigit = false) (a b : Bool) :
    splitWords a (c :: cs) = splitWords b (c :: cs) := by
  have hjoins : joins a c cs = joins b c cs := by
    rcases h with hc | hcs
    · cases cs <;> simp [joins, hc]
    · cases cs with
      | nil => rfl
      | cons d cs => simp_all [joins]
  rw [splitWords_cons, splitWords_cons, hjoins]

theorem splitWords_cons_of_joins {a : Bool} {c : Char} {cs w : List Char} {ws : List (List Char)}
    (hc : c.isAlphanum = true) (hjoins : joins a c cs = true)
    (hwords : splitWords c.isUpper cs = w :: ws) : splitWords a (c :: cs) = (c :: w) :: ws := by
  rw [splitWords_cons, if_pos hc, hjoins, hwords]

theorem splitWords_cons_of_not_joins {a : Bool} {c : Char} {cs : List Char}
    (hc : c.isAlphanum = true) (hjoins : joins a c cs = false) :
    splitWords a (c :: cs) = [c] :: splitWords c.isUpper cs := by
  rw [splitWords_cons, if_pos hc, hjoins]

theorem isAlphanum_eq (c : Char) : c.isAlphanum = (c.isUpper || isTail c) :=
  Bool.or_assoc _ _ _

theorem isAlphanum_of_isUpper {c : Char} (hc : c.isUpper = true) : c.isAlphanum = true := by
  rw [isAlphanum_eq, hc, Bool.true_or]

theorem isAlphanum_of_isTail {c : Char} (hc : isTail c = true) : c.isAlphanum = true := by
  rw [isAlphanum_eq, hc, Bool.or_true]

/-- A word that starts with a small letter or a digit is the run of these. -/
theorem splitWords_of_isTail {c : Char} (hc : isTail c = true) (a : Bool) (cs : List Char) :
    splitWords a (c :: cs) =
      (c :: cs.takeWhile isTail) :: splitWords false (cs.dropWhile isTail) := by
  have hupper := isUpper_eq_false_of_isTail hc
  induction cs generalizing c a with
  | nil =>
    rw [splitWords_cons_of_not_joins (isAlphanum_of_isTail hc) rfl, hupper]
    rfl
  | cons d cs ih =>
    have hjoins : joins a c (d :: cs) = isTail d := by simp [joins, hupper, isTail]
    by_cases hd : isTail d = true
    · rw [splitWords_cons_of_joins (isAlphanum_of_isTail hc) (hjoins.trans hd)
        (ih hd _ (isUpper_eq_false_of_isTail hd)), List.takeWhile_cons_of_pos hd,
        List.dropWhile_cons_of_pos hd]
    · rw [splitWords_cons_of_not_joins (isAlphanum_of_isTail hc) (by simpa [hjoins] using hd),
        hupper, List.takeWhile_cons_of_neg hd, List.dropWhile_cons_of_neg hd]

/-- The match of a regular expression at the start of a text is the first word of the text, and
behind it the words are those of what is left. -/
def Opens (r : Regex) (afterCapital : Bool) (cs : List Char) : Prop :=
  ∃ w rest, w ≠ [] ∧ cs = w ++ rest ∧ r.first? cs = some rest ∧
    splitWords afterCapital cs = w :: splitWords false rest

theorem joins_of_isUpper {c d : Char} (hc : c.isUpper = true) (hd : d.isLower = false)
    (cs : List Char) :
    joins true c (d :: cs) = (d.isUpper && !cs.head?.any Char.isLower) := by
  have hdigit : d.isDigit = true → d.isUpper = false := fun hdigit =>
    isUpper_eq_false_of_isTail (by rw [isTail, hdigit, Bool.or_true])
  cases hd' : d.isDigit <;> cases cs <;> simp_all [joins]

/-- A capital is a word where it does not close up with what is behind it. -/
theorem opens_capitals_of_not_joins {c : Char} (hc : c.isUpper = true) {cs : List Char}
    (hcs : cs.head?.any Char.isLower = false) (hjoins : joins true c cs = false)
    (hfirst : capitals.first? cs = none)
    (hwords : splitWords true cs = splitWords false cs) : Opens capitals true (c :: cs) := by
  refine ⟨[c], cs, List.cons_ne_nil _ _, rfl, ?_, ?_⟩
  · rw [first?_capitals_of_isUpper hc, hfirst, hcs]
    rfl
  · rw [splitWords_cons_of_not_joins (isAlphanum_of_isUpper hc) hjoins, hc, hwords]

/-- A run of capitals without a small letter behind the first one, read from the left: it ends
before the capital that a small letter follows, or else with the run. -/
theorem opens_capitals {c : Char} (hc : c.isUpper = true) {cs : List Char}
    (hcs : cs.head?.any Char.isLower = false) : Opens capitals true (c :: cs) := by
  induction cs generalizing c with
  | nil => exact opens_capitals_of_not_joins hc rfl rfl rfl rfl
  | cons d cs ih =>
    have hd : d.isLower = false := by simpa using hcs
    have hjoins := joins_of_isUpper hc hd cs
    cases hupper : d.isUpper with
    | false =>
      refine opens_capitals_of_not_joins hc hcs (by simp [hjoins, hupper])
        (first?_capitals_of_not_isUpper hupper cs) (splitWords_congr (.inl hupper) _ _)
    | true =>
      cases hlower : cs.head?.any Char.isLower with
      | false =>
        obtain ⟨w, rest, -, hsplit, hfirst, hwords⟩ := ih hupper hlower
        refine ⟨c :: w, rest, List.cons_ne_nil _ _, by rw [hsplit, List.cons_append], ?_, ?_⟩
        · rw [first?_capitals_of_isUpper hc, hfirst]
          rfl
        · exact splitWords_cons_of_joins (isAlphanum_of_isUpper hc)
            (by simp [hjoins, hupper, hlower]) (hc ▸ hwords)
      | true =>
        -- the small letter takes the last capital with it
        obtain ⟨e, he, hsmall⟩ := (Option.any_eq_true _ _).mp hlower
        obtain ⟨cs, rfl⟩ := List.head?_eq_some_iff.mp he
        have hnext : e.isUpper = false := isUpper_eq_false_of_isTail (by simp [isTail, hsmall])
        refine opens_capitals_of_not_joins hc hcs (by rw [hjoins, hlower, hupper]; rfl) ?_
          (splitWords_congr (.inr (by simp [isDigit_eq_false_of_isLower hsmall])) _ _)
        rw [first?_capitals_of_isUpper hupper, first?_capitals_of_not_isUpper hnext, hlower]
        rfl

theorem opens_wordRegex_of_isTail {c : Char} (hc : isTail c = true) (cs : List Char) :
    Opens wordRegex false (c :: cs) := by
  refine ⟨c :: cs.takeWhile isTail, cs.dropWhile isTail, List.cons_ne_nil _ _, ?_, ?_,
    splitWords_of_isTail hc _ _⟩
  · rw [List.cons_append, List.takeWhile_append_dropWhile]
  · rw [wordRegex, Regex.first?_either, first?_capitalized_of_isTail hc]
    rfl

/-- A capital starts a run of small letters and digits if there is one, or else a run of
capitals. -/
theorem opens_wordRegex_of_isUpper {c : Char} (hc : c.isUpper = true) (cs : List Char) :
    Opens wordRegex false (c :: cs) := by
  have hfirst : wordRegex.first? (c :: cs) =
      ((Regex.many isTail).first? cs).or (capitals.first? (c :: cs)) := by
    rw [wordRegex, Regex.first?_either, first?_capitalized_of_isUpper hc]
  cases htail : cs.head?.any isTail with
  | false =>
    have hnone : (Regex.many isTail).first? cs = none := by
      cases cs with
      | nil => rfl
      | cons d cs => rw [Regex.first?_many, if_neg (by simpa using htail)]
    have hplain : cs.head?.any Char.isLower = false ∧ cs.head?.any Char.isDigit = false := by
      cases cs <;> simp_all [isTail]
    obtain ⟨w, rest, hne, hsplit, hcapitals, hwords⟩ := opens_capitals hc hplain.1
    refine ⟨w, rest, hne, hsplit, by rw [hfirst, hnone, hcapitals]; rfl, ?_⟩
    rw [← hwords, splitWords_congr (.inr hplain.2)]
  | true =>
    obtain ⟨d, hd, hsmall⟩ := (Option.any_eq_true _ _).mp htail
    obtain ⟨cs, rfl⟩ := List.head?_eq_some_iff.mp hd
    have hjoins : joins false c (d :: cs) = true := by
      rcases (Bool.or_eq_true _ _).mp hsmall with hd | hd <;> simp [joins, hc, hd]
    refine ⟨c :: d :: cs.takeWhile isTail, cs.dropWhile isTail, List.cons_ne_nil _ _, ?_, ?_,
      splitWords_cons_of_joins (isAlphanum_of_isUpper hc) hjoins
        (splitWords_of_isTail hsmall _ _)⟩
    · rw [List.cons_append, List.cons_append, List.takeWhile_append_dropWhile]
    · rw [hfirst, Regex.first?_many, if_pos hsmall]
      rfl

/-- At a letter or a digit the match is the first word from there on. -/
theorem opens_wordRegex {c : Char} (hc : c.isAlphanum = true) (cs : List Char) :
    Opens wordRegex false (c :: cs) := by
  rw [isAlphanum_eq, Bool.or_eq_true] at hc
  exact hc.elim (opens_wordRegex_of_isUpper · cs) (opens_wordRegex_of_isTail · cs)

theorem first?_wordRegex_of_not_isAlphanum {c : Char} (hc : c.isAlphanum = false)
    (cs : List Char) : wordRegex.first? (c :: cs) = none := by
  rw [isAlphanum_eq, Bool.or_eq_false_iff] at hc
  rw [wordRegex, Regex.first?_either, first?_capitals_of_not_isUpper hc.1]
  simp [capitalized, Regex.first?, Regex.ends, Regex.ends.endsOfMany, hc]

/-! ## All words -/

/-- The words of a text are the matches of the regular expression in it. -/
theorem splitWords_eq_findAll (cs : List Char) : splitWords false cs = wordRegex.findAll cs := by
  induction hn : cs.length using Nat.strong_induction_on generalizing cs with
  | _ n ih =>
    subst hn
    cases cs with
    | nil => rw [splitWords, Regex.findAll]
    | cons c cs =>
      rw [Regex.findAll]
      cases hc : c.isAlphanum with
      | false =>
        rw [first?_wordRegex_of_not_isAlphanum hc, splitWords_cons, if_neg (by simp [hc]),
          (isAlphanum_eq_false_iff.mp hc).1]
        exact ih _ (Nat.lt_succ_self _) cs rfl
      | true =>
        obtain ⟨w, rest, hne, hsplit, hfirst, hwords⟩ := opens_wordRegex hc cs
        have hlength : (c :: cs).length = w.length + rest.length := by
          rw [hsplit, List.length_append]
        have hlt : rest.length < (c :: cs).length := by
          have := List.length_pos_of_ne_nil hne
          omega
        have htake : (c :: cs).take ((c :: cs).length - rest.length) = w := by
          rw [hlength, Nat.add_sub_cancel, hsplit, List.take_left]
        rw [hfirst, hwords, ih _ hlt rest rfl]
        simp only [if_pos hlt, htake]

/-- The words of an identifier are the matches of the regular expression in lower case. -/
theorem wordsOf_eq_findAll (text : String) :
    wordsOf text =
      (wordRegex.findAll text.toList).map fun w => String.ofList (w.map Char.toLower) := by
  rw [wordsOf, splitWords_eq_findAll]

example : (wordRegex.findAll "JPAStore2IDs_x".toList).map String.ofList =
    ["JPA", "Store2", "I", "Ds", "x"] := by
  rw [← splitWords_eq_findAll]
  decide +kernel

end EntryFlow.Name
