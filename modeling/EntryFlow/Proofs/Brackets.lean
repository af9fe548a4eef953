import EntryFlow.Name.Call
import EntryFlow.Proofs.Trim
import Mathlib.Data.List.Basic

/-!
# Brackets and names of a call

The names of a call stand outside its argument lists and type arguments. Which characters these are
is decided by counting the brackets that are open. A text that closes what it opens can be read for
itself: what follows it is read as if it stood alone.

## Main definitions

* `Call.openAfter`, `Call.Closed`: the brackets that are open behind a text.
* `Call.names`: the dotted names of a text in which no brackets are left.
* `Name.Simple`: names that are one word.

## Main statements

* `Call.bareFrom_append`: a text is read piece by piece.
* `Call.bare_emptyArgumentsFrom`, `Call.closed_emptyArgumentsFrom`: the contents of argument lists
  do not matter.
* `Call.names_append_dot`: the names before and behind a dot.
* `Call.dropQualifiers_append_dot`: the name behind the last dot is never dropped.
-/

namespace EntryFlow

namespace Call

open Text

/-! ## Open brackets -/

/-- How many parentheses and angle brackets are open behind a text, when `paren` and `angle` were
open before it. Angle brackets count outside parentheses only. -/
def openAfter (paren angle : Nat) : List Char → Nat × Nat
  | [] => (paren, angle)
  | c :: cs =>
    if c = '(' then openAfter (paren + 1) angle cs
    else if c = ')' then openAfter (paren - 1) angle cs
    else if paren ≠ 0 then openAfter paren angle cs
    else if c = '<' then openAfter paren (angle + 1) cs
    else if c = '>' then openAfter paren (angle - 1) cs
    else openAfter paren angle cs

/-- No bracket is open behind the text. -/
def Closed (cs : List Char) : Prop :=
  openAfter 0 0 cs = (0, 0)

instance (cs : List Char) : Decidable (Closed cs) :=
  inferInstanceAs (Decidable (openAfter 0 0 cs = (0, 0)))

/-- The characters that are counted. -/
def isBracket (c : Char) : Bool :=
  c = '(' || c = ')' || c = '<' || c = '>'

theorem isBracket_of_isBlank {c : Char} (h : isBlank c = true) : isBracket c = false := by
  have hopen : ∀ b, isBracket b = true → isBlank b = false := by
    intro b hb
    simp only [isBracket, Bool.or_eq_true, decide_eq_true_eq] at hb
    rcases hb with ((rfl | rfl) | rfl) | rfl <;> decide
  by_contra hb
  rw [hopen c (by simpa using hb)] at h
  cases h

/-- No bracket is read. -/
theorem isBracket_of_mem_bareFrom {paren angle : Nat} {cs : List Char} {c : Char}
    (h : c ∈ bareFrom paren angle cs) : isBracket c = false := by
  fun_induction bareFrom paren angle cs <;> grind [isBracket]

/-- What is read behind a text depends on the brackets that it leaves open. -/
theorem bareFrom_append (paren angle : Nat) (xs ys : List Char) :
    bareFrom paren angle (xs ++ ys) = bareFrom paren angle xs ++
      bareFrom (openAfter paren angle xs).1 (openAfter paren angle xs).2 ys := by
  fun_induction bareFrom paren angle xs <;> simp_all [openAfter, bareFrom]

/-- Only brackets count. -/
theorem openAfter_filter (paren angle : Nat) (cs : List Char) :
    openAfter paren angle (cs.filter isBracket) = openAfter paren angle cs := by
  fun_induction openAfter paren angle cs <;> grind [openAfter, isBracket]

theorem closed_congr {xs ys : List Char} (h : xs.filter isBracket = ys.filter isBracket) :
    Closed xs ↔ Closed ys := by
  rw [Closed, ← openAfter_filter, h, openAfter_filter, Closed]

theorem bare_of_forall {cs : List Char} (h : ∀ c ∈ cs, isBracket c = false) : bare cs = cs := by
  induction cs with
  | nil => rfl
  | cons c cs ih =>
    obtain ⟨hc, hcs⟩ := List.forall_mem_cons.mp h
    have hrest := ih hcs
    simp only [isBracket, Bool.or_eq_false_iff, decide_eq_false_iff_not] at hc
    simp_all [bare, bareFrom]

/-- Behind a text that closes what it opens the rest is read as if it stood alone. -/
theorem Closed.bare_append {xs : List Char} (h : Closed xs) (ys : List Char) :
    bare (xs ++ ys) = bare xs ++ bare ys := by
  rw [bare, bareFrom_append, show openAfter 0 0 xs = (0, 0) from h]
  rfl

/-- Behind a text that leaves a bracket open nothing is read until one is closed. -/
theorem bare_append_of_not_closed {xs ys : List Char} (h : ¬ Closed xs)
    (hys : ∀ c ∈ ys, isBracket c = false) : bare (xs ++ ys) = bare xs := by
  have hnone : ∀ paren angle, (paren, angle) ≠ (0, 0) → bareFrom paren angle ys = [] := by
    intro paren angle hopen
    induction ys with
    | nil => rfl
    | cons c ys ih =>
      obtain ⟨hc, hys⟩ := List.forall_mem_cons.mp hys
      have hrest := ih hys
      simp only [isBracket, Bool.or_eq_false_iff, decide_eq_false_iff_not] at hc
      simp_all [bareFrom]
  rw [bare, bareFrom_append, hnone _ _ h, List.append_nil]
  rfl

/-! ## Argument lists -/

/-- Of the parentheses that are open only the outermost one is left. -/
theorem bareFrom_emptyArgumentsFrom (depth angle : Nat) (cs : List Char) :
    bareFrom (min 1 depth) angle (emptyArgumentsFrom depth cs) = bareFrom depth angle cs := by
  fun_induction emptyArgumentsFrom depth cs generalizing angle with
  | case1 => rfl
  | case2 cs ih => simp [bareFrom, ← ih]
  | case3 depth cs hdepth ih =>
    have hone : min 1 depth = 1 := by omega
    simp [bareFrom, ← ih, hone]
  | case4 depth cs hopen hdepth ih =>
    have hclosed : min 1 depth - 1 = 0 ∧ depth - 1 = 0 := by omega
    simp [bareFrom, hclosed, ← ih]
  | case5 depth cs hopen hdepth ih =>
    have hone : min 1 depth = 1 ∧ min 1 (depth - 1) = 1 := by omega
    simp [bareFrom, ← ih, hone]
  | case6 c cs hopen hclose ih => simp [bareFrom, hopen, hclose, ← ih]
  | case7 depth c cs hopen hclose hdepth ih => simp [bareFrom, hopen, hclose, hdepth, ih]

theorem openAfter_emptyArgumentsFrom (depth angle : Nat) (cs : List Char) :
    openAfter (min 1 depth) angle (emptyArgumentsFrom depth cs) =
      (min 1 (openAfter depth angle cs).1, (openAfter depth angle cs).2) := by
  fun_induction emptyArgumentsFrom depth cs generalizing angle with
  | case1 => rfl
  | case2 cs ih => simpa [openAfter] using ih angle
  | case3 depth cs hdepth ih =>
    have hone : min 1 depth = 1 := by omega
    simpa [openAfter, hone] using ih angle
  | case4 depth cs hopen hdepth ih =>
    have hclosed : min 1 depth - 1 = 0 ∧ depth - 1 = 0 := by omega
    simpa [openAfter, hclosed] using ih angle
  | case5 depth cs hopen hdepth ih =>
    have hone : min 1 depth = 1 ∧ min 1 (depth - 1) = 1 := by omega
    simpa [openAfter, hone] using ih angle
  | case6 c cs hopen hclose ih =>
    have hrest := fun angle => ih angle
    simp only [Nat.min_zero] at hrest
    simp only [Nat.min_zero, openAfter, hopen, hclose, hrest, if_false, ne_eq, not_true_eq_false]
    split
    · rfl
    · split <;> rfl
  | case7 depth c cs hopen hclose hdepth ih =>
    simpa [openAfter, hopen, hclose, hdepth] using ih angle

/-- The contents of argument lists are not read. -/
theorem bare_emptyArgumentsFrom (cs : List Char) : bare (emptyArgumentsFrom 0 cs) = bare cs :=
  bareFrom_emptyArgumentsFrom 0 0 cs

theorem closed_emptyArgumentsFrom {cs : List Char} :
    Closed (emptyArgumentsFrom 0 cs) ↔ Closed cs := by
  have hopen := openAfter_emptyArgumentsFrom 0 0 cs
  rw [Nat.min_zero] at hopen
  rw [Closed, Closed, hopen, Prod.ext_iff, Prod.ext_iff]
  refine and_congr_left fun _ => ?_
  show min 1 (openAfter 0 0 cs).1 = 0 ↔ (openAfter 0 0 cs).1 = 0
  omega

/-- Bringing a text to one line opens and closes no bracket. -/
theorem closed_squeeze {cs : List Char} : Closed (squeeze cs) ↔ Closed cs :=
  closed_congr (filter_squeeze (fun _ => isBracket_of_isBlank) cs)

/-! ## Names -/

/-- The dotted names of a text, without the blanks around them and without empty names. -/
def names (cs : List Char) : List (List Char) :=
  ((cs.splitOn '.').map trim).filter (!·.isEmpty)

theorem segments_eq (call : String) :
    segments call = (names (bare call.toList)).map String.ofList := rfl

theorem names_append_dot (xs ys : List Char) :
    names (xs ++ '.' :: ys) = names xs ++ names ys := by
  rw [names, List.splitOn_append_cons_self, List.map_append, List.filter_append]
  rfl

theorem names_of_not_mem {cs : List Char} (h : '.' ∉ cs) :
    names cs = if trim cs = [] then [] else [trim cs] := by
  rw [names, List.splitOn_eq_singleton h]
  cases htrim : trim cs <;> simp [htrim]

/-- What names nothing changes nothing behind a word. -/
theorem names_append_of_names_eq_nil {word rest : List Char} (hword : '.' ∉ word)
    (hrest : names rest = []) : names (word ++ rest) = names word := by
  have hblanks :
      ∀ {bs : List Char}, '.' ∉ bs → names bs = [] → names (word ++ bs) = names word := by
    intro bs hbs hnone
    have hblank : trim bs = [] := by
      by_contra hsome
      rw [names_of_not_mem hbs, if_neg hsome] at hnone
      cases hnone
    have hdot : '.' ∉ word ++ bs := by simp [hword, hbs]
    rw [names_of_not_mem hdot, names_of_not_mem hword,
      trim_append_blanks word (trim_eq_nil_iff.mp hblank)]
  by_cases hmem : '.' ∈ rest
  · obtain ⟨bs, later, rfl, hbs⟩ := List.eq_append_cons_of_mem hmem
    rw [names_append_dot, List.append_eq_nil_iff] at hrest
    rw [← List.append_assoc, names_append_dot, hblanks hbs hrest.1, hrest.2, List.append_nil]
  · exact hblanks hmem hrest

/-- A name is a part of the text without a dot in it, without the blanks around it. -/
theorem exists_word_of_mem_names {cs name : List Char} (h : name ∈ names cs) :
    ∃ word, word <:+: cs ∧ '.' ∉ word ∧ name = trim word ∧ name ≠ [] := by
  induction hn : cs.length using Nat.strong_induction_on generalizing cs with
  | _ n ih =>
    by_cases hmem : '.' ∈ cs
    · obtain ⟨word, later, rfl, hword⟩ := List.eq_append_cons_of_mem hmem
      rw [names_append_dot, List.mem_append] at h
      simp only [List.length_append, List.length_cons] at hn
      rcases h with h | h
      · obtain ⟨part, hpart, hname⟩ := ih word.length (by omega) h rfl
        exact ⟨part, hpart.trans (List.prefix_append _ _).isInfix, hname⟩
      · obtain ⟨part, hpart, hname⟩ := ih later.length (by omega) h rfl
        have hlater : later <:+ word ++ '.' :: later := (List.suffix_cons _ _).trans
          (List.suffix_append _ _)
        exact ⟨part, hpart.trans hlater.isInfix, hname⟩
    · rw [names_of_not_mem hmem] at h
      split at h
      · cases h
      · rename_i hsome
        obtain rfl := List.mem_singleton.mp h
        exact ⟨cs, List.infix_refl cs, hmem, rfl, hsome⟩

/-- No name has a dot in it. -/
theorem not_mem_of_mem_names {cs name : List Char} (h : name ∈ names cs) : '.' ∉ name := by
  obtain ⟨word, -, hword, rfl, -⟩ := exists_word_of_mem_names h
  exact fun hdot => hword (mem_of_mem_trim hdot)

theorem not_mem_dot_of_blank {bs : List Char} (h : ∀ c ∈ bs, isBlank c = true) : '.' ∉ bs :=
  fun hdot => absurd (h '.' hdot) (by decide)

theorem names_append_blanks (cs : List Char) {bs : List Char} (h : ∀ c ∈ bs, isBlank c = true) :
    names (cs ++ bs) = names cs := by
  have hnone : names bs = [] := by
    rw [names_of_not_mem (not_mem_dot_of_blank h), if_pos (trim_eq_nil_iff.mpr h)]
  induction hn : cs.length using Nat.strong_induction_on generalizing cs with
  | _ n ih =>
    by_cases hmem : '.' ∈ cs
    · obtain ⟨word, later, rfl, -⟩ := List.eq_append_cons_of_mem hmem
      simp only [List.length_append, List.length_cons] at hn
      have hlater := ih later.length (by omega) later rfl
      rw [List.append_assoc, List.cons_append, names_append_dot, hlater, names_append_dot]
    · exact names_append_of_names_eq_nil hmem hnone

theorem names_blanks_append {bs : List Char} (h : ∀ c ∈ bs, isBlank c = true) (cs : List Char) :
    names (bs ++ cs) = names cs := by
  have hword : ∀ word, '.' ∉ word → names (bs ++ word) = names word := by
    intro word hword
    have hdot : '.' ∉ bs ++ word := by simp [not_mem_dot_of_blank h, hword]
    rw [names_of_not_mem hdot, names_of_not_mem hword, trim_blanks_append h]
  by_cases hmem : '.' ∈ cs
  · obtain ⟨word, later, rfl, hdot⟩ := List.eq_append_cons_of_mem hmem
    rw [← List.append_assoc, names_append_dot, hword word hdot, names_append_dot]
  · exact hword cs hmem

/-! ## Self qualifiers -/

theorem filter_trimStart {p : Char → Bool} (hp : ∀ c, isBlank c = true → p c = false)
    (cs : List Char) : (trimStart cs).filter p = cs.filter p := by
  have hblanks : (cs.takeWhile isBlank).filter p = [] := by
    refine List.filter_eq_nil_iff.mpr fun c hc => ?_
    simp [hp c (List.mem_takeWhile_imp hc)]
  rw [← List.takeWhile_append_dropWhile (p := isBlank) (l := cs), List.filter_append, hblanks,
    List.takeWhile_append_dropWhile]
  rfl

/-- The words that stand for the own object. -/
def selfWords : List (List Char) :=
  ["this".toList, "super".toList]

theorem not_mem_dot_of_mem_selfWords {word : List Char} (h : word ∈ selfWords) : '.' ∉ word := by
  simp only [selfWords, List.mem_cons, List.not_mem_nil, or_false] at h
  rcases h with rfl | rfl <;> decide

theorem filter_isBracket_of_mem_selfWords {word : List Char} (h : word ∈ selfWords) :
    word.filter isBracket = [] := by
  simp only [selfWords, List.mem_cons, List.not_mem_nil, or_false] at h
  rcases h with rfl | rfl <;> decide

/-- A qualifier that is dropped is such a word with a dot behind it. -/
theorem dropQualifier?_eq_some_iff {cs rest : List Char} :
    dropQualifier? cs = some rest ↔
      ∃ word ∈ selfWords, ∃ later, cs = word ++ '.' :: later ∧ rest = trimStart later := by
  constructor
  · intro h
    obtain ⟨later, hlater, rfl⟩ := Option.map_eq_some_iff.mp h
    obtain ⟨qualifier, hqualifier, hfront⟩ := List.exists_of_findSome?_eq_some hlater
    have hcs := List.isPrefixOf?_eq_some_iff_append_eq.mp hfront
    simp only [selfQualifiers, List.mem_cons, List.not_mem_nil, or_false] at hqualifier
    rcases hqualifier with rfl | rfl
    · exact ⟨"this".toList, by decide, later, hcs.symm, rfl⟩
    · exact ⟨"super".toList, by decide, later, hcs.symm, rfl⟩
  · rintro ⟨word, hword, later, rfl, rfl⟩
    simp only [selfWords, List.mem_cons, List.not_mem_nil, or_false] at hword
    rcases hword with rfl | rfl <;> rfl

theorem dropQualifier?_append {q : List Char} (hq : q ∈ selfQualifiers) (later : List Char) :
    dropQualifier? (q ++ later) = some (trimStart later) := by
  simp only [selfQualifiers, List.mem_cons, List.not_mem_nil, or_false] at hq
  rcases hq with rfl | rfl <;> rfl

theorem exists_of_dropQualifier? {cs rest : List Char} (h : dropQualifier? cs = some rest) :
    ∃ q ∈ selfQualifiers, ∃ later, cs = q ++ later ∧ rest = trimStart later := by
  have hdotted : ∀ word ∈ selfWords, word ++ ['.'] ∈ selfQualifiers := by decide
  obtain ⟨word, hword, later, rfl, rfl⟩ := dropQualifier?_eq_some_iff.mp h
  exact ⟨word ++ ['.'], hdotted word hword, later, List.append_cons .., rfl⟩

theorem dropQualifier?_eq_none_iff {cs : List Char} :
    dropQualifier? cs = none ↔ ∀ q ∈ selfQualifiers, ¬ q <+: cs := by
  constructor
  · rintro hnone q hq ⟨later, rfl⟩
    rw [dropQualifier?_append hq] at hnone
    cases hnone
  · intro hleads
    refine Option.eq_none_iff_forall_ne_some.mpr fun rest hrest => ?_
    obtain ⟨q, hq, later, rfl, -⟩ := exists_of_dropQualifier? hrest
    exact hleads q hq (List.prefix_append q later)

theorem dropQualifiers_of_some {cs rest : List Char} (h : dropQualifier? cs = some rest) :
    dropQualifiers cs = dropQualifiers rest := by
  rw [dropQualifiers]
  split <;> simp_all

theorem dropQualifiers_of_none {cs : List Char} (h : dropQualifier? cs = none) :
    dropQualifiers cs = cs := by
  rw [dropQualifiers]
  split <;> simp_all

theorem dropQualifiers_of_not_mem {cs : List Char} (h : '.' ∉ cs) : dropQualifiers cs = cs := by
  refine dropQualifiers_of_none (Option.eq_none_iff_forall_ne_some.mpr fun rest hrest => ?_)
  obtain ⟨word, -, later, rfl, -⟩ := dropQualifier?_eq_some_iff.mp hrest
  simp at h

/-- Dropping qualifiers opens and closes no bracket. -/
theorem closed_dropQualifiers {cs : List Char} : Closed (dropQualifiers cs) ↔ Closed cs := by
  induction cs using dropQualifiers.induct with
  | case1 cs rest hrest hlt ih =>
    rw [dropQualifiers_of_some hrest, ih]
    obtain ⟨word, hword, later, rfl, rfl⟩ := dropQualifier?_eq_some_iff.mp hrest
    refine closed_congr ?_
    rw [filter_trimStart fun _ => isBracket_of_isBlank, List.filter_append,
      filter_isBracket_of_mem_selfWords hword, List.nil_append,
      List.filter_cons_of_neg (by decide)]
  | case2 cs hnone => rw [dropQualifiers_of_none hnone]

theorem trimmed_dropQualifiers {cs : List Char} (h : Trimmed cs) : Trimmed (dropQualifiers cs) := by
  induction cs using dropQualifiers.induct with
  | case1 cs rest hrest hlt ih =>
    rw [dropQualifiers_of_some hrest]
    obtain ⟨word, -, later, rfl, rfl⟩ := dropQualifier?_eq_some_iff.mp hrest
    refine ih ⟨head?_trimStart _, fun c hc => h.last c ?_⟩
    obtain ⟨front, hfront⟩ : trimStart later <:+ later := List.dropWhile_suffix _
    rw [← hfront, ← List.cons_append, ← List.append_assoc, List.getLast?_append, hc]
    rfl
  | case2 cs hnone => rwa [dropQualifiers_of_none hnone]

/-- Where a text has a dot, its first word ends before the last dot or at it. -/
theorem append_dot_eq {cs name word later : List Char} (hword : '.' ∉ word)
    (h : cs ++ '.' :: name = word ++ '.' :: later) :
    (cs = word ∧ later = name) ∨ ∃ mid, cs = word ++ '.' :: mid ∧ later = mid ++ '.' :: name := by
  rcases List.append_eq_append_iff.mp h with ⟨as, rfl, has⟩ | ⟨bs, rfl, hbs⟩
  · cases as with
    | nil => simp_all
    | cons a as => simp_all
  · cases bs with
    | nil => simp_all
    | cons b bs => exact .inr ⟨bs, by simp_all⟩

/-- A qualifier is dropped with the blanks behind it up to a character that is none. -/
theorem dropQualifier?_append_cons {cs rest : List Char} (h : dropQualifier? cs = some rest)
    {c : Char} (hc : isBlank c = false) (more : List Char) :
    dropQualifier? (cs ++ c :: more) = some (rest ++ c :: more) := by
  obtain ⟨word, hword, later, rfl, rfl⟩ := dropQualifier?_eq_some_iff.mp h
  refine dropQualifier?_eq_some_iff.mpr ⟨word, hword, later ++ c :: more, by simp, ?_⟩
  rw [trimStart_append_cons later hc]

/-- No self qualifier ends at the dot behind a text that has none and is no self word. -/
theorem dropQualifier?_append_dot {cs : List Char} (h : dropQualifier? cs = none)
    (hself : cs ∉ selfWords) (rest : List Char) : dropQualifier? (cs ++ '.' :: rest) = none := by
  refine Option.eq_none_iff_forall_ne_some.mpr fun left hleft => ?_
  obtain ⟨word, hword, later, htext, -⟩ := dropQualifier?_eq_some_iff.mp hleft
  rcases append_dot_eq (not_mem_dot_of_mem_selfWords hword) htext with ⟨rfl, -⟩ | ⟨mid, rfl, -⟩
  · exact hself hword
  · rw [dropQualifier?_eq_some_iff.mpr ⟨word, hword, mid, rfl, rfl⟩] at h
    cases h

theorem dropQualifiers_idem (cs : List Char) :
    dropQualifiers (dropQualifiers cs) = dropQualifiers cs := by
  induction cs using dropQualifiers.induct with
  | case1 cs rest hrest hlt ih => rw [dropQualifiers_of_some hrest, ih]
  | case2 cs hnone => rw [dropQualifiers_of_none hnone, dropQualifiers_of_none hnone]

/-- The name behind the last dot is never dropped, and does not change what is dropped before it
unless all of that is. -/
theorem dropQualifiers_append_dot {name : List Char} (hdot : '.' ∉ name)
    (hhead : ∀ c ∈ name.head?, isBlank c = false) (cs : List Char) :
    dropQualifiers (cs ++ '.' :: name) = dropQualifiers cs ++ '.' :: name ∨
      Closed cs ∧ dropQualifiers (cs ++ '.' :: name) = name := by
  induction cs using dropQualifiers.induct with
  | case1 cs rest hrest hlt ih =>
    rw [← closed_dropQualifiers, dropQualifiers_of_some hrest, closed_dropQualifiers]
    rwa [dropQualifiers_of_some (dropQualifier?_append_cons hrest (by decide) name)]
  | case2 cs hnone =>
    rw [dropQualifiers_of_none hnone]
    by_cases hself : cs ∈ selfWords
    · have hbrackets : cs.filter isBracket = ([] : List Char).filter isBracket :=
        filter_isBracket_of_mem_selfWords hself
      have hdrop := dropQualifiers_of_some
        (dropQualifier?_eq_some_iff.mpr ⟨cs, hself, name, rfl, rfl⟩)
      refine .inr ⟨(closed_congr hbrackets).mpr rfl, ?_⟩
      rw [hdrop, trimStart_eq_self hhead, dropQualifiers_of_not_mem hdot]
    · exact .inl (dropQualifiers_of_none (dropQualifier?_append_dot hnone hself name))

end Call

/-! ## Simple names -/

/-- A name that is one word: it is not empty and has no dots, brackets or blanks. -/
structure Name.Simple (s : String) : Prop where
  ne_empty : s ≠ ""
  plain : ∀ c ∈ s.toList, c ≠ '.' ∧ Call.isBracket c = false ∧ Text.isBlank c = false

instance (s : String) : Decidable (Name.Simple s) :=
  letI : Decidable (∀ c ∈ s.toList, c ≠ '.' ∧ Call.isBracket c = false ∧ Text.isBlank c = false) :=
    List.decidableBAll _ _
  decidable_of_iff (s ≠ "" ∧
      ∀ c ∈ s.toList, c ≠ '.' ∧ Call.isBracket c = false ∧ Text.isBlank c = false)
    ⟨fun ⟨a, b⟩ => ⟨a, b⟩, fun ⟨a, b⟩ => ⟨a, b⟩⟩

namespace Name.Simple

variable {s : String} (h : Simple s)
include h

theorem not_mem_dot : '.' ∉ s.toList :=
  fun hdot => (h.plain _ hdot).1 rfl

theorem trimmed : Text.Trimmed s.toList :=
  .of_forall fun c hc => (h.plain c hc).2.2

theorem bare_eq : Call.bare s.toList = s.toList :=
  Call.bare_of_forall fun c hc => (h.plain c hc).2.1

/-- A simple name is its own and only name. -/
theorem names_eq : Call.names s.toList = [s.toList] := by
  have hne : s.toList ≠ [] := fun hnil => h.ne_empty (String.toList_inj.mp hnil)
  rw [Call.names_of_not_mem h.not_mem_dot, Text.trim_eq_self h.trimmed, if_neg hne]

theorem segments_eq : Call.segments s = [s] := by
  rw [Call.segments_eq, h.bare_eq, h.names_eq]
  simp

end Name.Simple

end EntryFlow
