import EntryFlow.Proofs.IndexContents
import EntryFlow.Proofs.Labels

/-!
# Declared types and their raw names

A declared type is written as modifiers and annotations, a dotted name, type arguments, the brackets
of an array and the dots of a variable parameter. The raw name is found by cutting, removing and
trimming one after the other. Each of these steps leaves some text in front of the name that is
empty or ends in a space, and the name; what stands behind the name is gone in the end.

## Main definitions

* `Name.DeclaredType`: declared types with their written form and their name.
* `Text.Spaced`: what may stand in front of a name.

## Main statements

* `Text.remove_append_cons`: a pattern is removed on both sides of a character that it does not
  have.
* `Text.Spaced.exists_remove`, `Text.Spaced.trimStart`, `Text.Spaced.lastWord_append`: what the
  steps do to the text in front.
* `Name.DeclaredType.raw_text`: the raw name of a declared type is its name.
* `Index.resolveName_cases`: what a raw name refers to.
* `Index.resolveType_declared`: what a declared type refers to.
-/

namespace EntryFlow

namespace Text

/-! ## Removing a pattern -/

theorem prefix_append_cons_iff {pattern xs ys : List Char} {c : Char} (hc : c ∉ pattern) :
    pattern <+: xs ++ c :: ys ↔ pattern <+: xs := by
  refine ⟨fun h => ?_, fun h => h.trans (List.prefix_append _ _)⟩
  rcases List.prefix_or_prefix_of_prefix h (List.prefix_append xs (c :: ys)) with hxs | hxs
  · exact hxs
  · obtain ⟨rest, rfl⟩ := hxs
    have hrest : rest <+: c :: ys := (List.prefix_append_right_inj xs).mp h
    cases rest with
    | nil => simp
    | cons d rest =>
      obtain ⟨rfl, -⟩ := List.cons_prefix_cons.mp hrest
      simp at hc

theorem removeFrom_append_cons {pattern : List Char} (hne : pattern ≠ []) {c : Char}
    (hc : c ∉ pattern) (xs ys : List Char) {skip : Nat} (hskip : skip ≤ xs.length) :
    removeFrom pattern skip (xs ++ c :: ys) =
      removeFrom pattern skip xs ++ c :: removeFrom pattern 0 ys := by
  fun_induction removeFrom pattern skip xs with
  | case1 skip =>
    obtain rfl : skip = 0 := by simpa using hskip
    have hpattern : ¬ pattern <+: [] ++ c :: ys := fun h =>
      hne (List.prefix_nil.mp ((prefix_append_cons_iff hc).mp h))
    rw [List.nil_append] at hpattern
    simp [removeFrom, List.isPrefixOf_iff_prefix, hpattern]
  | case2 x xs n ih =>
    rw [List.cons_append, removeFrom]
    exact ih (by simpa using hskip)
  | case3 x xs hpattern ih =>
    have hprefix := List.isPrefixOf_iff_prefix.mp hpattern
    have hlength := hprefix.length_le
    rw [List.cons_append, removeFrom, ← List.cons_append, List.isPrefixOf_iff_prefix.mpr
      ((prefix_append_cons_iff hc).mpr hprefix)]
    exact ih (by simp at hlength; omega)
  | case4 x xs hpattern ih =>
    have hprefix : ¬ pattern.isPrefixOf (x :: xs ++ c :: ys) = true := by
      rwa [List.isPrefixOf_iff_prefix, prefix_append_cons_iff hc, ← List.isPrefixOf_iff_prefix]
    rw [List.cons_append, removeFrom, ← List.cons_append, if_neg hprefix, ih (Nat.zero_le _)]
    rfl

/-- An occurrence of a pattern does not reach over a character that the pattern does not have. -/
theorem remove_append_cons {pattern : List Char} (hne : pattern ≠ []) {c : Char}
    (hc : c ∉ pattern) (xs ys : List Char) :
    remove pattern (xs ++ c :: ys) = remove pattern xs ++ c :: remove pattern ys :=
  removeFrom_append_cons hne hc xs ys (Nat.zero_le _)

/-- An occurrence of a pattern does not begin where its first character is not. -/
theorem remove_append_of_not_mem {a : Char} (pattern : List Char) {xs : List Char} (h : a ∉ xs)
    (ys : List Char) : remove (a :: pattern) (xs ++ ys) = xs ++ remove (a :: pattern) ys := by
  induction xs with
  | nil => rfl
  | cons x xs ih =>
    obtain ⟨hx, hxs⟩ : a ≠ x ∧ a ∉ xs := by simpa using h
    have hrest := ih hxs
    rw [remove] at hrest
    simp [remove, removeFrom, hx, hrest]

theorem remove_of_not_mem {a : Char} (pattern : List Char) {xs : List Char} (h : a ∉ xs) :
    remove (a :: pattern) xs = xs := by
  simpa [remove, removeFrom] using remove_append_of_not_mem pattern h []

/-! ## Texts in front of a name -/

/-- What may stand in front of a name: nothing, or a text that ends in a space. -/
def Spaced (front : List Char) : Prop :=
  front = [] ∨ ∃ rest, front = rest ++ [' ']

namespace Spaced

variable {front : List Char} (h : Spaced front)
include h

theorem trimStart : Spaced (trimStart front) := by
  rcases h with rfl | ⟨rest, rfl⟩
  · exact .inl rfl
  · rw [Text.trimStart, List.dropWhile_append]
    split
    · exact .inl rfl
    · exact .inr ⟨_, rfl⟩

theorem exists_remove (pattern cs : List Char) (hne : pattern ≠ []) (hspace : ' ' ∉ pattern) :
    ∃ left, Spaced left ∧ remove pattern (front ++ cs) = left ++ remove pattern cs := by
  rcases h with rfl | ⟨rest, rfl⟩
  · exact ⟨[], .inl rfl, rfl⟩
  · refine ⟨remove pattern rest ++ [' '], .inr ⟨_, rfl⟩, ?_⟩
    rw [List.append_assoc, List.singleton_append, remove_append_cons hne hspace]
    simp

end Spaced

/-! ## The last word -/

theorem trim_append_of_forall (front : List Char) {name : List Char} (hne : name ≠ [])
    (hname : ∀ c ∈ name, isBlank c = false) : trim (front ++ name) = trimStart front ++ name := by
  obtain ⟨c, cs, rfl⟩ := List.exists_cons_of_ne_nil hne
  have hend : ∀ d ∈ cs.getLast?, isBlank d = false :=
    fun d hd => hname d (List.mem_cons_of_mem c (List.mem_of_getLast? hd))
  rw [trim_append_cons front (hname c List.mem_cons_self), trimEnd_eq_self hend]

theorem words_ne_nil {c : Char} (hc : isBlank c = false) (cs : List Char) :
    words (c :: cs) ≠ [] := by
  rw [words_cons, if_neg (by simp [hc])]
  split
  · split <;> exact List.cons_ne_nil _ _
  · exact List.cons_ne_nil _ _

/-- No word reaches over a blank. -/
theorem words_append_blank {b : Char} (hb : isBlank b = true) (xs ys : List Char) :
    words (xs ++ b :: ys) = words xs ++ words ys := by
  induction xs with
  | nil => rw [List.nil_append, words_cons, if_pos hb]; rfl
  | cons x xs ih =>
    rw [List.cons_append, words_cons, words_cons, ih]
    by_cases hx : isBlank x = true
    · rw [if_pos hx, if_pos hx]
    · rw [if_neg hx, if_neg hx]
      cases xs with
      | nil =>
        rw [List.nil_append, show words [] = [] from rfl, List.nil_append]
        cases words ys with
        | nil => rfl
        | cons w ws => exact if_pos hb
      | cons d xs =>
        cases hd : isBlank d with
        | true => cases words (d :: xs) <;> cases words ys <;> simp [hd]
        | false =>
          obtain ⟨w, ws, hwords⟩ := List.exists_cons_of_ne_nil (words_ne_nil hd xs)
          simp [hd, hwords]

theorem words_of_forall {cs : List Char} (hne : cs ≠ []) (h : ∀ c ∈ cs, isBlank c = false) :
    words cs = [cs] := by
  induction cs with
  | nil => exact absurd rfl hne
  | cons c cs ih =>
    obtain ⟨hc, hcs⟩ := List.forall_mem_cons.mp h
    rw [words_cons, if_neg (by simp [hc])]
    cases cs with
    | nil => rfl
    | cons d cs =>
      rw [ih (List.cons_ne_nil _ _) hcs]
      simp [hcs d List.mem_cons_self]

/-- The text in front of a name is gone when the last word is taken where there are several. -/
theorem Spaced.lastWord_append {front name : List Char} (h : Spaced front) (hne : name ≠ [])
    (hname : ∀ c ∈ name, isBlank c = false) :
    (if ' ' ∈ front ++ name then (words (front ++ name)).getLast?.getD [] else front ++ name) =
      name := by
  rcases h with rfl | ⟨rest, rfl⟩
  · have hspace : ' ' ∉ [] ++ name := fun hspace => absurd (hname ' ' hspace) (by decide)
    rw [if_neg hspace]
    rfl
  · rw [if_pos (by simp), List.append_assoc, List.singleton_append,
      words_append_blank (by decide), words_of_forall hne hname]
    simp

end Text

open Text

namespace Name

/-! ## Declared types -/

/-- A segment of the dotted name of a type: it is not empty and has neither dots nor blanks nor
angle or square brackets. -/
structure IsTypeSegment (s : String) : Prop where
  ne_empty : s ≠ ""
  plain : ∀ c ∈ s.toList, c ∉ ['.', '<', '>', '[', ']'] ∧ isBlank c = false

instance (s : String) : Decidable (IsTypeSegment s) :=
  letI : Decidable (∀ c ∈ s.toList, c ∉ ['.', '<', '>', '[', ']'] ∧ isBlank c = false) :=
    List.decidableBAll _ _
  decidable_of_iff (s ≠ "" ∧ ∀ c ∈ s.toList, c ∉ ['.', '<', '>', '[', ']'] ∧ isBlank c = false)
    ⟨fun ⟨a, b⟩ => ⟨a, b⟩, fun ⟨a, b⟩ => ⟨a, b⟩⟩

/-- A declared type in its parts. The type arguments are any text that starts
with an angle bracket. -/
structure DeclaredType where
  modifiers : List String := []
  segments : List String
  arguments : String := ""
  dimensions : Nat := 0
  isVariadic : Bool := false
  unbracketed : ∀ m ∈ modifiers, '<' ∉ m.toList
  segments_ne_nil : segments ≠ []
  isTypeSegment : ∀ s ∈ segments, IsTypeSegment s
  bracketed : ∀ c ∈ arguments.toList.head?, c = '<'

namespace DeclaredType

variable (d : DeclaredType)

/-- The dotted name. -/
def name : String :=
  ".".intercalate d.segments

/-- The segment behind the last dot. -/
def lastSegment : String :=
  d.segments.getLast d.segments_ne_nil

/-- What stands behind the name and the type arguments. -/
def suffix : String :=
  String.join (List.replicate d.dimensions "[]") ++ if d.isVariadic then "..." else ""

/-- The declared type as it is written. -/
def text : String :=
  String.join (d.modifiers.map (· ++ " ")) ++ d.name ++ d.arguments ++ d.suffix

/-! ### The parts of the text -/

theorem spaced_modifiers : Spaced (String.join (d.modifiers.map (· ++ " "))).toList := by
  induction d.modifiers using List.reverseRecOn with
  | nil => exact .inl rfl
  | append_singleton ms m ih =>
    exact .inr ⟨(String.join (ms.map (· ++ " "))).toList ++ m.toList, by simp⟩

theorem not_mem_modifiers : '<' ∉ (String.join (d.modifiers.map (· ++ " "))).toList := by
  simpa [String.toList_join] using d.unbracketed

/-! ### Dotted names -/

section Segments

variable {segments : List String} (h : ∀ s ∈ segments, IsTypeSegment s)
include h

theorem plain_of_mem_intercalate :
    ∀ c ∈ (".".intercalate segments).toList, c ∉ ['<', '>', '[', ']'] ∧ isBlank c = false := by
  induction segments with
  | nil => simp
  | cons s segments ih =>
    obtain ⟨hs, hsegments⟩ := List.forall_mem_cons.mp h
    have hplain : ∀ c ∈ s.toList, c ∉ ['<', '>', '[', ']'] ∧ isBlank c = false :=
      fun c hc => (hs.plain c hc).imp_left (mt (List.mem_cons_of_mem '.'))
    cases segments with
    | nil => simpa using hplain
    | cons t segments =>
      intro c hc
      simp only [String.intercalate_cons_cons, String.toList_append, List.mem_append] at hc
      rcases hc with (hc | hc) | hc
      · exact hplain c hc
      · obtain rfl : c = '.' := by simpa using hc
        decide
      · exact ih hsegments c hc

/-- A dotted name starts with a character that is no dot. -/
theorem exists_intercalate_eq_cons (hne : segments ≠ []) :
    ∃ c cs, (".".intercalate segments).toList = c :: cs ∧ c ≠ '.' := by
  obtain ⟨s, rest, rfl⟩ := List.exists_cons_of_ne_nil hne
  have hs := h s List.mem_cons_self
  obtain ⟨c, cs, hcs⟩ := List.exists_cons_of_ne_nil
    (fun hnil => hs.ne_empty (String.toList_inj.mp hnil) : s.toList ≠ [])
  have hdot : c ≠ '.' := by
    rintro rfl
    exact (hs.plain '.' (by simp [hcs])).1 (by simp)
  cases rest with
  | nil => exact ⟨c, cs, by simpa using hcs, hdot⟩
  | cons t rest =>
    refine ⟨c, cs ++ '.' :: (".".intercalate (t :: rest)).toList, ?_, hdot⟩
    simp [String.intercalate_cons_cons, hcs]

/-- The dots of a dotted name stand apart, so only those of a variable parameter are removed. -/
theorem remove_dots_intercalate {dots : List Char} (hdots : dots = [] ∨ dots = ['.', '.', '.']) :
    remove ['.', '.', '.'] ((".".intercalate segments).toList ++ dots) =
      (".".intercalate segments).toList := by
  have hnone : remove ['.', '.', '.'] dots = [] := by rcases hdots with rfl | rfl <;> rfl
  induction segments with
  | nil => simpa using hnone
  | cons s segments ih =>
    obtain ⟨hs, hsegments⟩ := List.forall_mem_cons.mp h
    have hdot : '.' ∉ s.toList := fun hdot => (hs.plain '.' hdot).1 (by simp)
    cases segments with
    | nil =>
      have hsegment := remove_append_of_not_mem ['.', '.'] hdot dots
      simpa [hnone] using hsegment
    | cons t segments =>
      have hrest := ih hsegments
      obtain ⟨c, cs, hcs, hc⟩ := exists_intercalate_eq_cons hsegments (List.cons_ne_nil _ _)
      have htext : (".".intercalate (s :: t :: segments)).toList =
          s.toList ++ '.' :: (".".intercalate (t :: segments)).toList := by
        simp [String.intercalate_cons_cons]
      rw [hcs] at htext hrest
      rw [htext, List.append_assoc]
      refine (remove_append_of_not_mem ['.', '.'] hdot _).trans ?_
      -- the dot behind the segment begins no ellipsis, for a character other than a dot follows it
      have hprefix : ¬ ['.', '.', '.'].isPrefixOf ('.' :: (c :: cs ++ dots)) = true := by
        simp [Ne.symm hc]
      rw [List.cons_append, remove, removeFrom, if_neg hprefix]
      exact congrArg (s.toList ++ '.' :: ·) hrest

end Segments

theorem name_ne_nil : d.name.toList ≠ [] := by
  obtain ⟨c, cs, hcs, -⟩ := exists_intercalate_eq_cons d.isTypeSegment d.segments_ne_nil
  rw [name, hcs]
  exact List.cons_ne_nil _ _

theorem name_plain : ∀ c ∈ d.name.toList, c ∉ ['<', '>', '[', ']'] ∧ isBlank c = false :=
  plain_of_mem_intercalate d.isTypeSegment

/-! ### What stands behind the name -/

/-- Brackets of an array, and the dots of a variable parameter behind them. -/
def IsSuffix (behind : List Char) : Prop :=
  ∃ dimensions dots, (dots = [] ∨ dots = ['.', '.', '.']) ∧
    behind = (List.replicate dimensions ['[', ']']).flatten ++ dots

theorem isSuffix_nil : IsSuffix [] := ⟨0, [], .inl rfl, rfl⟩

theorem isSuffix_suffix : IsSuffix d.suffix.toList := by
  refine ⟨d.dimensions, (if d.isVariadic then "..." else "").toList, ?_, ?_⟩
  · cases d.isVariadic
    · exact .inl rfl
    · exact .inr rfl
  · simp [suffix, String.toList_join, List.flatMap_replicate]

theorem IsSuffix.mem {behind : List Char} (h : IsSuffix behind) {c : Char} (hc : c ∈ behind) :
    c ∈ ['[', ']', '.'] := by
  obtain ⟨dimensions, dots, hdots, rfl⟩ := h
  rcases List.mem_append.mp hc with hc | hc
  · obtain ⟨brackets, hbrackets, hc⟩ := List.mem_flatten.mp hc
    obtain rfl := List.eq_of_mem_replicate hbrackets
    exact List.mem_append_left ['.'] hc
  · obtain rfl : c = '.' := by rcases hdots with rfl | rfl <;> simp_all
    decide

/-- The brackets behind a name are removed, and then the dots are. -/
theorem remove_suffix {behind : List Char} (h : IsSuffix behind) :
    ∃ dots, (dots = [] ∨ dots = ['.', '.', '.']) ∧
      remove ['[', ']'] (d.name.toList ++ behind) = d.name.toList ++ dots := by
  obtain ⟨dimensions, dots, hdots, rfl⟩ := h
  have hname : '[' ∉ d.name.toList := fun hname => (d.name_plain _ hname).1 (by decide)
  have hdotted : '[' ∉ dots := by rcases hdots with rfl | rfl <;> decide
  refine ⟨dots, hdots, (remove_append_of_not_mem _ hname _).trans (congrArg _ ?_)⟩
  induction dimensions with
  | zero => exact remove_of_not_mem _ hdotted
  | succ dimensions ih => exact ih

/-! ### The raw name -/

/-- What is left of the modifiers when the text is trimmed. -/
def front : List Char :=
  trimStart (String.join (d.modifiers.map (· ++ " "))).toList

theorem spaced_front : Spaced d.front :=
  d.spaced_modifiers.trimStart

theorem not_mem_front : '<' ∉ d.front :=
  fun h => d.not_mem_modifiers ((List.dropWhile_suffix _).mem h)

/-- The text without the blanks around it. Type arguments may lose blanks at their end. -/
theorem exists_trim_text :
    ∃ behind rest, IsSuffix behind ∧ (∀ c ∈ rest.head?, c = '<') ∧
      trim d.text.toList = d.front ++ (d.name.toList ++ behind) ++ rest := by
  obtain ⟨c, cs, hname⟩ := List.exists_cons_of_ne_nil d.name_ne_nil
  have hblank : ∀ e ∈ c :: cs, isBlank e = false := fun e he =>
    (d.name_plain e (hname ▸ he)).2
  have htext : d.text.toList = (String.join (d.modifiers.map (· ++ " "))).toList ++
      c :: (cs ++ (d.arguments.toList ++ d.suffix.toList)) := by
    simp [text, hname]
  rw [htext, trim_append_cons _ (hblank c List.mem_cons_self), hname]
  cases harguments : d.arguments.toList with
  | nil =>
    have hend : trimEnd (cs ++ ([] ++ d.suffix.toList)) = cs ++ d.suffix.toList := by
      refine trimEnd_eq_self fun e he => ?_
      rcases List.mem_append.mp (List.mem_of_getLast? he) with he | he
      · exact hblank e (List.mem_cons_of_mem c he)
      · have hsuffix := d.isSuffix_suffix.mem he
        simp only [List.mem_cons, List.not_mem_nil, or_false] at hsuffix
        rcases hsuffix with rfl | rfl | rfl <;> decide
    exact ⟨d.suffix.toList, [], d.isSuffix_suffix, by simp, by rw [hend]; simp [front]⟩
  | cons a rest =>
    obtain rfl := d.bracketed a (by simp [harguments])
    have hend : trimEnd (cs ++ ('<' :: rest ++ d.suffix.toList)) =
        cs ++ '<' :: trimEnd (rest ++ d.suffix.toList) :=
      trimEnd_append_cons cs (by decide) _
    exact ⟨[], '<' :: trimEnd (rest ++ d.suffix.toList), isSuffix_nil, by simp,
      by rw [hend]; simp [front]⟩

/-- The text is cut behind the name. -/
theorem exists_takeWhile_trim_text :
    ∃ behind, IsSuffix behind ∧
      (trim d.text.toList).takeWhile (· ≠ '<') = d.front ++ (d.name.toList ++ behind) := by
  obtain ⟨behind, rest, hbehind, hrest, htrim⟩ := d.exists_trim_text
  refine ⟨behind, hbehind, ?_⟩
  have hhead : ∀ c ∈ d.front ++ (d.name.toList ++ behind), decide (c ≠ '<') = true := by
    rintro c hc
    refine decide_eq_true ?_
    rintro rfl
    rcases List.mem_append.mp hc with hc | hc
    · exact d.not_mem_front hc
    · rcases List.mem_append.mp hc with hc | hc
      · exact (d.name_plain _ hc).1 (by decide)
      · exact absurd (hbehind.mem hc) (by decide)
  rw [htrim, List.takeWhile_append_of_pos hhead]
  cases rest with
  | nil => simp
  | cons c rest => simp [hrest c rfl]

/-- The raw name of a declared type is its dotted name. -/
theorem raw_text : raw d.text = d.name := by
  obtain ⟨behind, hbehind, hhead⟩ := d.exists_takeWhile_trim_text
  obtain ⟨dots, hdots, hbrackets⟩ := d.remove_suffix hbehind
  obtain ⟨front₁, hfront₁, hremove₁⟩ := d.spaced_front.exists_remove ['[', ']']
    (d.name.toList ++ behind) (by decide) (by decide)
  obtain ⟨front₂, hfront₂, hremove₂⟩ := hfront₁.exists_remove ['.', '.', '.']
    (d.name.toList ++ dots) (by decide) (by decide)
  rw [hbrackets] at hremove₁
  rw [name, remove_dots_intercalate d.isTypeSegment hdots, ← name] at hremove₂
  have hblank : ∀ c ∈ d.name.toList, isBlank c = false := fun c hc => (d.name_plain c hc).2
  have htrim : trim (remove "...".toList (remove "[]".toList
      ((trim d.text.toList).takeWhile (· ≠ '<')))) = trimStart front₂ ++ d.name.toList := by
    rw [hhead]
    exact (congrArg (fun cs => trim (remove ['.', '.', '.'] cs)) hremove₁).trans
      ((congrArg trim hremove₂).trans (trim_append_of_forall front₂ d.name_ne_nil hblank))
  rw [raw, htrim, hfront₂.trimStart.lastWord_append d.name_ne_nil hblank, String.ofList_toList]

example : raw "@NonNull() final java.util.List<Map<A, B[]>>[]..." = "java.util.List" := by
  decide +kernel

theorem text_ne_empty : d.text ≠ "" := by
  intro hempty
  have hname := d.name_ne_nil
  simp_all [text]

/-- The name alone, as a declared type. -/
def bareName : DeclaredType :=
  { d with modifiers := [], arguments := "", dimensions := 0, isVariadic := false,
           unbracketed := by simp, bracketed := by simp }

theorem text_bareName : d.bareName.text = d.name := by
  simp [text, bareName, suffix, name]

theorem simple_name : simple d.name = d.lastSegment := by
  have hlast : '.' ∉ d.lastSegment.toList := fun hdot =>
    ((d.isTypeSegment _ (List.getLast_mem _)).plain '.' hdot).1 (by simp)
  have hsegments : d.segments.dropLast ++ [d.lastSegment] = d.segments :=
    List.dropLast_append_getLast d.segments_ne_nil
  rw [simple, name, ← hsegments]
  by_cases hfront : d.segments.dropLast = []
  · rw [hfront]
    simp [afterLast, splitAtLast_of_not_mem hlast]
  · rw [String.intercalate_append_of_ne_nil hfront (List.cons_ne_nil _ _)]
    simp [afterLast, splitAtLast_append hlast]

end DeclaredType

end Name

/-! ## What a declared type refers to -/

namespace Index

variable (types : List TypeRecord)

/-- The types of an index stand under their names. -/
theorem type?_fqn {t : TypeRecord} (h : t ∈ (ofTypes types).types.values) :
    (ofTypes types).type? t.fqn = some t := by
  obtain ⟨⟨fqn, u⟩, he, rfl⟩ := List.mem_map.mp h
  have hfqn : fqn = u.fqn := by
    rw [types_ofTypes] at he
    obtain ⟨v, -, hv⟩ := List.mem_map.mp (Table.mem_of_mem_ofList he)
    cases hv
    rfl
  exact (Table.find?_eq_some_iff (nodup_keys_types_ofTypes types)).mpr (hfqn ▸ he)

/-- A raw name refers to the type of that full name, or else to the first type whose simple name is
its last segment, or else to no type. -/
theorem resolveName_cases {name : String} (hne : name ≠ "") :
    (∃ t, (ofTypes types).type? (.text name) = some t ∧ (ofTypes types).resolveName name = name) ∨
      ((ofTypes types).type? (.text name) = none ∧
        ∃ t, (ofTypes types).typeNamed? (.text (Name.simple name)) = some t ∧
          (ofTypes types).type? (.text ((ofTypes types).resolveName name)) = some t) ∨
      ((ofTypes types).type? (.text name) = none ∧
        (ofTypes types).typeNamed? (.text (Name.simple name)) = none ∧
        (ofTypes types).resolveName name = name) := by
  rw [resolveName, Table.has, show (ofTypes types).types.find? (.text name) =
    (ofTypes types).type? (.text name) from rfl]
  cases hindexed : (ofTypes types).type? (.text name) with
  | some t => exact .inl ⟨t, rfl, by simp⟩
  | none =>
    refine .inr ?_
    have hempty : (name.isEmpty || (none : Option TypeRecord).isSome) = false := by simpa using hne
    rw [hempty, if_neg Bool.false_ne_true]
    cases hnamed : (ofTypes types).typeNamed? (.text (Name.simple name)) with
    | none => exact .inr ⟨rfl, rfl, rfl⟩
    | some t =>
      refine .inl ⟨rfl, t, rfl, ?_⟩
      have hname : t.name = .text (Name.simple name) := by simpa using List.find?_some hnamed
      have hfqn : t.fqn = .text t.fqn.display := by
        rw [TypeRecord.fqn, hname, Datum.qualify]
        split <;> rfl
      rw [← hfqn]
      exact type?_fqn types (List.mem_of_find?_eq_some hnamed)

/-- The raw name of a declared type is its dotted name, whatever modifiers, type arguments, brackets
of arrays and dots are written with it. So it refers to what the name alone refers to: to the type
of that name, or else to the first type that is called like its last segment, each under the name by
which it is indexed, or else, where the index has neither, to the name itself. -/
theorem resolveType_declared (d : Name.DeclaredType) :
    Name.raw d.text = d.name ∧
      ∃ r, (ofTypes types).resolveType (.text d.text) = .ok r ∧
        (ofTypes types).resolveType (.text d.name) = .ok r ∧
        ((∃ t, (ofTypes types).type? (.text d.name) = some t ∧ r = d.name) ∨
          ((ofTypes types).type? (.text d.name) = none ∧
            ∃ t, (ofTypes types).typeNamed? (.text d.lastSegment) = some t ∧
              (ofTypes types).type? (.text r) = some t) ∨
          ((ofTypes types).type? (.text d.name) = none ∧
            (∀ t ∈ (ofTypes types).types.values, t.name ≠ .text d.lastSegment) ∧ r = d.name)) := by
  have hresolve (e : Name.DeclaredType) : (ofTypes types).resolveType (.text e.text) =
      .ok ((ofTypes types).resolveName e.name) := by
    have hnonempty : (Datum.text e.text).isEmpty = false := by
      simpa [Datum.isEmpty] using e.text_ne_empty
    rw [resolveType, Datum.rawType, hnonempty, if_neg Bool.false_ne_true, e.raw_text]
    rfl
  have hbare := hresolve d.bareName
  rw [d.text_bareName] at hbare
  have hne : d.name ≠ "" := fun hempty => d.name_ne_nil (by rw [hempty]; rfl)
  refine ⟨d.raw_text, (ofTypes types).resolveName d.name, hresolve d, hbare, ?_⟩
  have hcases := resolveName_cases types hne
  rw [d.simple_name] at hcases
  refine hcases.imp_right (Or.imp_right ?_)
  rintro ⟨hname, hnamed, hr⟩
  exact ⟨hname, by simpa [typeNamed?] using hnamed, hr⟩

/-- A declared type with all that can be written around its name. -/
def declaredStocks : Name.DeclaredType where
  modifiers := ["@NonNull()", "final"]
  segments := ["shop", "Stock"]
  arguments := "<Map<A, B[]>>"
  dimensions := 1
  isVariadic := true
  unbracketed := by decide
  segments_ne_nil := List.cons_ne_nil _ _
  isTypeSegment := by decide +kernel
  bracketed := by simp

/-- No type has the full name that was declared, so the type is found by its simple name. -/
theorem resolveType_declared_stocks :
    declaredStocks.text = "@NonNull() final shop.Stock<Map<A, B[]>>[]..." ∧
      Name.raw declaredStocks.text = "shop.Stock" ∧
      (ofTypes redeclared).resolveType (.text declaredStocks.text) = .ok "old.Stock" ∧
      ∃ t, (ofTypes redeclared).typeNamed? (.text "Stock") = some t ∧
        (ofTypes redeclared).type? (.text "old.Stock") = some t := by
  have hname : declaredStocks.name = "shop.Stock" := by decide +kernel
  have hmissing : (ofTypes redeclared).type? (.text "shop.Stock") = none := by decide +kernel
  have hnamed : ¬ ∀ t ∈ (ofTypes redeclared).types.values, t.name ≠ .text "Stock" := by
    decide +kernel
  obtain ⟨hraw, r, hr, hbare, hcases⟩ := resolveType_declared redeclared declaredStocks
  rw [hname] at hraw hbare hcases
  have hr' : r = "old.Stock" := by
    have hold : (ofTypes redeclared).resolveType (.text "shop.Stock") = .ok "old.Stock" := by
      decide +kernel
    exact Except.ok.inj (hbare.symm.trans hold)
  subst hr'
  refine ⟨by decide +kernel, hraw, hr, ?_⟩
  rcases hcases with ⟨t, ht, -⟩ | ⟨-, t, ht, htype⟩ | ⟨-, hnone, -⟩
  · cases hmissing.symm.trans ht
  · exact ⟨t, ht, htype⟩
  · exact absurd hnone hnamed

end Index

end EntryFlow
