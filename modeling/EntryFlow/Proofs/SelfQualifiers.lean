import EntryFlow.Proofs.EmptiedArguments
import Mathlib.Computability.Language

/-!
# Self qualifiers in front of a call

Normalizing a call drops the self qualifiers in front of it, each with the blanks behind it. All
that is dropped is the longest front of the trimmed call that consists of such qualifiers and
blanks. A qualifier starts with no blank and with no other qualifier, so there is one way only to
read a front, and no choice in the dropping leads to another result: one qualifier after the other,
or pass after pass in which each of them is looked for once.

## Main definitions

* `Text.IsLongestPrefix`: the longest prefix of a text that a language has.
* `Call.selfFronts`: the fronts of self qualifiers and blanks, as a language.
* `Call.dropInTurn`, `Call.DropsInTurn`: a pass over the self qualifiers, and passes up to the end.

## Main statements

* `Call.isLongestPrefix_selfFronts`: what is dropped is the longest such front.
* `Call.exists_dropsInTurn`: passes come to an end, with the same result.
* `Conventions.resolve_eq_ignored_iff`: the calls that resolution ignores are the logging calls.
* `Call.unqualified_drops_longest`: the laws of normalization together.
-/

namespace EntryFlow

/-- The text starts with a word of the language, and with no longer one. -/
structure Text.IsLongestPrefix (l : Language Char) (front cs : List Char) : Prop where
  mem : front ∈ l
  isPrefix : front <+: cs
  length_le : ∀ other ∈ l, other <+: cs → other.length ≤ front.length

namespace Call

open Text
open scoped Computability

/-- The self qualifiers as a language. -/
def qualifiers : Language Char :=
  {q | q ∈ selfQualifiers}

/-- The texts of one blank. -/
def blank : Language Char :=
  {cs | ∃ c, isBlank c = true ∧ cs = [c]}

/-- Self qualifiers in any number, with blanks in any number behind each. -/
def selfFronts : Language Char :=
  (qualifiers * blank∗)∗

/-! ## Fronts of qualifiers and blanks -/

/-- A text is led by one self qualifier at most. -/
theorem eq_of_qualifier_prefix {q other cs : List Char} (hq : q ∈ selfQualifiers)
    (hother : other ∈ selfQualifiers) (h : q <+: cs) (h' : other <+: cs) : q = other := by
  have hapart : ∀ q ∈ selfQualifiers, ∀ other ∈ selfQualifiers, q <+: other → q = other := by
    decide
  rcases List.prefix_or_prefix_of_prefix h h' with hpre | hpre
  · exact hapart q hq other hother hpre
  · exact (hapart other hother q hq hpre).symm

theorem mem_kstar_blank_iff {cs : List Char} :
    cs ∈ blank∗ ↔ ∀ c ∈ cs, isBlank c = true := by
  rw [Language.mem_kstar]
  constructor
  · rintro ⟨parts, rfl, hparts⟩ c hc
    obtain ⟨part, hpart, hc⟩ := List.mem_flatten.mp hc
    obtain ⟨d, hd, rfl⟩ := hparts part hpart
    rwa [List.mem_singleton.mp hc]
  · intro hcs
    refine ⟨cs.map ([·]), (List.flatMap_singleton' cs).symm, fun part hpart => ?_⟩
    obtain ⟨c, hc, rfl⟩ := List.mem_map.mp hpart
    exact ⟨c, hcs c hc, rfl⟩

/-- A front is empty, or it is a qualifier with blanks and a front behind it. -/
theorem mem_selfFronts_iff {cs : List Char} :
    cs ∈ selfFronts ↔ cs = [] ∨ ∃ q ∈ selfQualifiers, ∃ bs, (∀ c ∈ bs, isBlank c = true) ∧
      ∃ more ∈ selfFronts, cs = q ++ (bs ++ more) := by
  have hunfold : selfFronts = 1 + qualifiers * blank∗ * selfFronts :=
    (Language.one_add_self_mul_kstar_eq_kstar _).symm
  rw [hunfold, Language.mem_add, Language.mem_one, ← hunfold]
  refine or_congr_right ⟨?_, ?_⟩
  · intro h
    obtain ⟨one, hone, more, hmore, rfl⟩ := Language.mem_mul.mp h
    obtain ⟨q, hq, bs, hbs, rfl⟩ := Language.mem_mul.mp hone
    exact ⟨q, hq, bs, mem_kstar_blank_iff.mp hbs, more, hmore, List.append_assoc ..⟩
  · rintro ⟨q, hq, bs, hbs, more, hmore, rfl⟩
    rw [← List.append_assoc]
    exact Language.append_mem_mul
      (Language.append_mem_mul hq (mem_kstar_blank_iff.mpr hbs)) hmore

/-- A front starts with no blank, so dropping blanks leaves it whatever follows it. -/
theorem prefix_trimStart_append {front : List Char} (h : front ∈ selfFronts) (rest : List Char) :
    front <+: trimStart (front ++ rest) := by
  have hheads : ∀ q ∈ selfQualifiers, q ≠ [] ∧ q.head?.any isBlank = false := by decide
  rcases mem_selfFronts_iff.mp h with rfl | ⟨q, hq, bs, -, more, -, rfl⟩
  · exact List.nil_prefix
  · obtain ⟨hne, hhead⟩ := hheads q hq
    rw [trimStart_eq_self]
    · exact List.prefix_append _ _
    · intro c hc
      rw [List.append_assoc, List.head?_append_of_ne_nil _ hne] at hc
      rwa [hc, Option.any_some] at hhead

/-- In front of the longest front, a qualifier and all blanks behind it make the longest front. -/
theorem isLongestPrefix_append {q later front : List Char} (hq : q ∈ selfQualifiers)
    (h : IsLongestPrefix selfFronts front (trimStart later)) :
    IsLongestPrefix selfFronts (q ++ (later.takeWhile isBlank ++ front)) (q ++ later) where
  mem := mem_selfFronts_iff.mpr
    (.inr ⟨q, hq, _, fun _ => List.mem_takeWhile_imp, front, h.mem, rfl⟩)
  isPrefix := by
    obtain ⟨rest, hrest⟩ := h.isPrefix
    refine ⟨rest, ?_⟩
    rw [List.append_assoc, List.append_assoc, hrest, trimStart, List.takeWhile_append_dropWhile]
  length_le other hother hpre := by
    rcases mem_selfFronts_iff.mp hother with rfl | ⟨q', hq', bs, hbs, more, hmore, rfl⟩
    · exact Nat.zero_le _
    have hsame : q' = q :=
      eq_of_qualifier_prefix hq' hq ((List.prefix_append _ _).trans hpre) (List.prefix_append _ _)
    subst hsame
    obtain ⟨rest, rfl⟩ := (List.prefix_append_right_inj _).mp hpre
    rw [List.append_assoc] at h ⊢
    -- the other front may have fewer blanks behind the qualifier, but only if it ends there
    have hblanks : bs.length ≤ ((bs ++ (more ++ rest)).takeWhile isBlank).length := by
      rw [List.takeWhile_append_of_pos hbs, List.length_append]
      omega
    have hfront : more.length ≤ front.length := by
      refine h.length_le more hmore ?_
      rw [trimStart_blanks_append hbs]
      exact prefix_trimStart_append hmore rest
    simp only [List.length_append]
    omega

/-- What is dropped is the longest front of self qualifiers and blanks. -/
theorem isLongestPrefix_selfFronts (cs : List Char) :
    ∃ front, IsLongestPrefix selfFronts front cs ∧ cs = front ++ dropQualifiers cs := by
  induction cs using dropQualifiers.induct with
  | case1 cs rest hrest hlt ih =>
    obtain ⟨q, hq, later, rfl, rfl⟩ := exists_of_dropQualifier? hrest
    obtain ⟨front, hfront, hleft⟩ := ih
    refine ⟨q ++ (later.takeWhile isBlank ++ front), isLongestPrefix_append hq hfront, ?_⟩
    rw [dropQualifiers_of_some hrest, List.append_assoc, List.append_assoc, ← hleft, trimStart,
      List.takeWhile_append_dropWhile]
  | case2 cs hnone =>
    refine ⟨[], ⟨Language.nil_mem_kstar _, List.nil_prefix, fun other hother hpre => ?_⟩, ?_⟩
    · rcases mem_selfFronts_iff.mp hother with rfl | ⟨q, hq, bs, -, more, -, rfl⟩
      · exact Nat.le_refl _
      · have hq := dropQualifier?_eq_none_iff.mp hnone q hq
        exact absurd ((List.prefix_append _ _).trans hpre) hq
    · rw [dropQualifiers_of_none hnone, List.nil_append]

/-! ## Passes over the qualifiers -/

/-- A self qualifier is dropped if it leads, with the blanks behind it. -/
def dropLeading (cs qualifier : List Char) : List Char :=
  match qualifier.isPrefixOf? cs with
  | some later => trimStart later
  | none => cs

/-- Every self qualifier is looked for once, in what the ones before it have left. -/
def dropInTurn (cs : List Char) : List Char :=
  selfQualifiers.foldl dropLeading cs

/-- Each of so many passes over the text finds a qualifier. They leave `rest`, where
none is found any more. -/
structure DropsInTurn (passes : Nat) (cs rest : List Char) : Prop where
  finds : ∀ n < passes, ∃ q ∈ selfQualifiers, q <+: dropInTurn^[n] cs
  leaves : dropInTurn^[passes] cs = rest
  ends : ∀ q ∈ selfQualifiers, ¬ q <+: rest

theorem DropsInTurn.cons {passes : Nat} {cs rest : List Char}
    (h : DropsInTurn passes (dropInTurn cs) rest) (hfound : ∃ q ∈ selfQualifiers, q <+: cs) :
    DropsInTurn (passes + 1) cs rest where
  finds n hn := by
    cases n with
    | zero => exact hfound
    | succ n => exact h.finds n (Nat.lt_of_succ_lt_succ hn)
  leaves := h.leaves
  ends := h.ends

theorem dropLeading_append (q later : List Char) :
    dropLeading (q ++ later) q = trimStart later := by
  rw [dropLeading, List.isPrefixOf?_eq_some_iff_append_eq.mpr rfl]

theorem dropLeading_eq_self {q cs : List Char} (h : ¬ q <+: cs) : dropLeading cs q = cs := by
  rw [dropLeading]
  split
  · rename_i later hlater
    exact absurd ⟨later, List.isPrefixOf?_eq_some_iff_append_eq.mp hlater⟩ h
  · rfl

/-- Whichever self qualifiers are looked for first, in the end the same is left. -/
theorem dropQualifiers_foldl {qs : List (List Char)} (hqs : ∀ q ∈ qs, q ∈ selfQualifiers)
    (cs : List Char) : dropQualifiers (qs.foldl dropLeading cs) = dropQualifiers cs := by
  induction qs generalizing cs with
  | nil => rfl
  | cons q qs ih =>
    obtain ⟨hq, hqs⟩ := List.forall_mem_cons.mp hqs
    rw [List.foldl_cons, ih hqs]
    by_cases h : q <+: cs
    · obtain ⟨later, rfl⟩ := h
      rw [dropLeading_append, dropQualifiers_of_some (dropQualifier?_append hq later)]
    · rw [dropLeading_eq_self h]

/-- A pass finds no qualifier and changes nothing, or it finds one and the text gets shorter. -/
theorem foldl_dropLeading_cases {qs : List (List Char)} (hne : [] ∉ qs) (cs : List Char) :
    ((∀ q ∈ qs, ¬ q <+: cs) ∧ qs.foldl dropLeading cs = cs) ∨
      (∃ q ∈ qs, q <+: cs) ∧ (qs.foldl dropLeading cs).length < cs.length := by
  induction qs generalizing cs with
  | nil => simp
  | cons q qs ih =>
    obtain ⟨hq, hne⟩ := List.ne_and_not_mem_of_not_mem_cons hne
    rw [List.foldl_cons]
    by_cases h : q <+: cs
    · obtain ⟨later, rfl⟩ := h
      refine .inr ⟨⟨q, List.mem_cons_self, List.prefix_append _ _⟩, ?_⟩
      have hpos : 0 < q.length := List.length_pos_of_ne_nil hq.symm
      have hlater := length_trimStart_le later
      rw [dropLeading_append, List.length_append]
      rcases ih hne (trimStart later) with ⟨-, hkept⟩ | ⟨-, hlt⟩
      · rw [hkept]
        omega
      · omega
    · rw [dropLeading_eq_self h]
      rcases ih hne cs with ⟨hleads, hkept⟩ | ⟨⟨other, hother, hpre⟩, hlt⟩
      · exact .inl ⟨List.forall_mem_cons.mpr ⟨h, hleads⟩, hkept⟩
      · exact .inr ⟨⟨other, List.mem_cons_of_mem _ hother, hpre⟩, hlt⟩

theorem dropInTurn_cases (cs : List Char) :
    ((∀ q ∈ selfQualifiers, ¬ q <+: cs) ∧ dropInTurn cs = cs) ∨
      (∃ q ∈ selfQualifiers, q <+: cs) ∧ (dropInTurn cs).length < cs.length :=
  foldl_dropLeading_cases (by decide) cs

/-- Pass after pass drops all qualifiers, in no more passes than there are characters. -/
theorem exists_dropsInTurn (cs : List Char) :
    ∃ passes ≤ cs.length, DropsInTurn passes cs (dropQualifiers cs) := by
  induction cs using WellFounded.induction (measure List.length).wf with
  | _ cs ih =>
    rcases dropInTurn_cases cs with ⟨hleads, -⟩ | ⟨hfound, hlt⟩
    · rw [dropQualifiers_of_none (dropQualifier?_eq_none_iff.mpr hleads)]
      exact ⟨0, Nat.zero_le _, ⟨fun _ hn => absurd hn (Nat.not_lt_zero _), rfl, hleads⟩⟩
    · obtain ⟨passes, hpasses, hrest⟩ := ih (dropInTurn cs) hlt
      have hleft : dropQualifiers (dropInTurn cs) = dropQualifiers cs :=
        dropQualifiers_foldl (fun _ => id) cs
      rw [hleft] at hrest
      exact ⟨passes + 1, Nat.lt_of_le_of_lt hpasses hlt, hrest.cons hfound⟩

end Call

/-! ## Logging calls -/

namespace Conventions

variable {conventions : Conventions} {index : Index} {context : Context}

theorem startsLogging_nil_ne (receivers : List Datum) : startsLogging [] receivers ≠ .ok true := by
  induction receivers with
  | nil => simp [startsLogging]
  | cons receiver receivers ih => cases receiver <;> simp [startsLogging, ih]

/-- Resolution, which looks at the normalized call, ignores the logging calls and no others. -/
theorem resolve_eq_ignored_iff {raw : String} :
    conventions.resolve index (.text raw) context = .ok .ignored ↔
      conventions.isLogging (.text raw) = .ok true := by
  constructor
  · intro h
    obtain ⟨call, hcall, hr | ⟨-, hlogging⟩ | ⟨-, ⟨_, -, hr⟩ | ⟨_, _, m, -, hm⟩⟩⟩ := resolve_cases h
    · cases hr
    · rw [Datum.callText_text] at hcall
      cases hcall
      rwa [isLogging_unqualified] at hlogging
    · cases hr
    · obtain ⟨_, -, hr⟩ := Resolution.exists_signature_of_found hm
      cases hr
  · intro h
    have hne : (Call.unqualified raw).isEmpty = false := by
      rw [isLogging_text] at h
      by_contra hempty
      rw [Bool.not_eq_false, String.isEmpty_iff] at hempty
      rw [hempty] at h
      exact startsLogging_nil_ne _ h
    simp [resolve, Datum.callText_text, isLogging_unqualified, hne, h]

end Conventions

/-- A call in normal form is what is left of the trimmed call behind its longest front of self
qualifiers and blanks, and passes over the qualifiers come to an end with it. It is trimmed, no
qualifier leads it, and it is its own normal form; so it is a logging call if the raw call is one,
and those are the calls that resolution ignores. Arguments can be emptied before or after. -/
theorem Call.unqualified_drops_longest (conventions : Conventions) (raw : String) :
    (Datum.text raw).callText = .ok (unqualified raw) ∧
      (∃ passes ≤ (Text.trim raw.toList).length,
        DropsInTurn passes (Text.trim raw.toList) (unqualified raw).toList) ∧
      (∃ front, Text.IsLongestPrefix selfFronts front (Text.trim raw.toList) ∧
        Text.trim raw.toList = front ++ (unqualified raw).toList) ∧
      Text.Trimmed (unqualified raw).toList ∧
      (∀ q ∈ selfQualifiers, ¬ q <+: (unqualified raw).toList) ∧
      unqualified (unqualified raw) = unqualified raw ∧
      conventions.isLogging (.text (unqualified raw)) = conventions.isLogging (.text raw) ∧
      (∀ index context, conventions.resolve index (.text raw) context = .ok .ignored ↔
        conventions.isLogging (.text raw) = .ok true) ∧
      unqualified (emptyArguments raw) = emptyArguments (unqualified raw) := by
  have htext : (unqualified raw).toList = dropQualifiers (Text.trim raw.toList) :=
    String.toList_ofList
  obtain ⟨passes, hpasses, hdrops⟩ := exists_dropsInTurn (Text.trim raw.toList)
  obtain ⟨front, hfront, hleft⟩ := isLongestPrefix_selfFronts (Text.trim raw.toList)
  rw [← htext] at hdrops hleft
  exact ⟨Datum.callText_text raw, ⟨passes, hpasses, hdrops⟩, ⟨front, hfront, hleft⟩,
    trimmed_unqualified raw, hdrops.ends, unqualified_unqualified raw,
    conventions.isLogging_unqualified raw, fun _ _ => Conventions.resolve_eq_ignored_iff,
    unqualified_emptyArguments raw⟩

end EntryFlow
