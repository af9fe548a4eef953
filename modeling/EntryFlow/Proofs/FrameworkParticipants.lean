import EntryFlow.Proofs.DiagramLines
import EntryFlow.Proofs.ListedSteps

/-!
# Participants of framework calls

A participant is known by its name, and it is marked as a framework category or not when its name
comes first. So the marks tell framework calls from methods as long as no category has the name of a
declaring type. Where both have one name, they share a participant, and the mark is that of whatever
comes first.

## Main definitions

* `Step.isLeaf`: framework leaves.
* `Trace.leaves`, `Trace.others`: the signatures of a trace, by what they stand for.
* `Diagram.assigned`: the participant of a signature.
* `Diagram.Apart`: framework leaves are told from all else.
* `Index.AvoidsCategories`: no declaring type has the name of a category.

## Main statements

* `Diagram.hasMark_iff_mem_leaves`: which signatures of a trace mark a participant.
* `Diagram.apart_iff`: when framework leaves are told from all else.
* `Diagram.nameOf_signature`, `Diagram.nameOf_frameworkLabel`: the names of participants.
* `Diagram.participants_apart`: how a diagram marks its participants.
* `Diagram.exists_shared_participant`: a type and a category that share a participant.
-/

namespace EntryFlow

open Text

/-- The step is a framework leaf: a call that leads out of the corpus. -/
def Step.isLeaf (s : Step) : Bool :=
  s.terminal && s.caller.isSome

namespace Trace

/-- The labels of the framework leaves of a trace. -/
def leaves (t : Trace) : List String :=
  (t.steps.filter Step.isLeaf).map Step.target

/-- The other signatures of a trace: targets of steps that are no leaves, and callers. -/
def others (t : Trace) : List String :=
  (t.steps.filter (!·.isLeaf)).map Step.target ++ t.steps.filterMap Step.caller

theorem mem_uses_iff {t : Trace} {signature : String} :
    signature ∈ t.uses ↔ signature ∈ t.leaves ∨ signature ∈ t.others := by
  have htargets : signature ∈ t.leaves ∨ signature ∈ (t.steps.filter (!·.isLeaf)).map Step.target ↔
      ∃ s ∈ t.steps, s.target = signature := by
    rw [leaves, ← List.mem_append, ← List.map_append, List.mem_map]
    refine exists_congr fun s => and_congr_left fun _ => ?_
    exact (List.filter_append_perm Step.isLeaf t.steps).mem_iff
  rw [others, List.mem_append, ← or_assoc, htargets, uses, List.mem_flatMap, List.mem_filterMap,
    ← exists_or]
  refine exists_congr fun s => ?_
  rw [Step.signatures, List.mem_cons, Option.mem_toList, ← and_or_left, eq_comm]

theorem target_mem_leaves {t : Trace} {s : Step} (hs : s ∈ t.steps) (hleaf : s.isLeaf) :
    s.target ∈ t.leaves :=
  List.mem_map_of_mem (List.mem_filter.mpr ⟨hs, hleaf⟩)

theorem target_mem_others {t : Trace} {s : Step} (hs : s ∈ t.steps) (hleaf : ¬ s.isLeaf) :
    s.target ∈ t.others := by
  refine List.mem_append_left _ (List.mem_map_of_mem (List.mem_filter.mpr ⟨hs, ?_⟩))
  rw [eq_false_of_ne_true hleaf, Bool.not_false]

section Listed

variable {conventions : Conventions} {index : Index} {keys : List Datum} {t : Trace}
  (ht : ∀ s ∈ t.steps, Walk.Listed conventions index keys s)
include ht

/-- A framework leaf has a category and the called name. -/
theorem exists_of_mem_leaves {signature : String} (h : signature ∈ t.leaves) :
    ∃ category name call, conventions.HasCategory category ∧ name ∈ Call.segments call ∧
      signature = frameworkLabel category name := by
  obtain ⟨s, hs, rfl⟩ := List.mem_map.mp h
  obtain ⟨hs, hleaf⟩ := List.mem_filter.mp hs
  cases ht s hs with
  | framework hcategory hname => exact ⟨_, _, _, hcategory, hname, rfl⟩
  | root | called | marker => cases hleaf

/-- Any other signature is that of a method, or a marker. -/
theorem signs_or_markerOf_of_mem_others {signature : String} (h : signature ∈ t.others) :
    index.Signs signature ∨
      ∃ key ∈ keys, ¬ index.Locates key ∧ Walk.MarkerOf key signature := by
  rcases List.mem_append.mp h with htarget | hcaller
  · obtain ⟨s, hs, rfl⟩ := List.mem_map.mp htarget
    obtain ⟨hs, hleaf⟩ := List.mem_filter.mp hs
    cases ht s hs with
    | root hsigns => exact .inl hsigns
    | called hsigns => exact .inl hsigns
    | framework => cases hleaf
    | marker hkey hlost hmarker => exact .inr ⟨_, hkey, hlost, hmarker⟩
  · obtain ⟨s, hs, hcaller⟩ := List.mem_filterMap.mp hcaller
    cases ht s hs with
    | root | marker => cases hcaller
    | called _ hsigns | framework _ _ hsigns =>
      cases hcaller
      exact .inl hsigns

end Listed

end Trace

/-- Neither a signature of the index nor a key starts like the label of a framework call. -/
structure Index.Unmarked (index : Index) (keys : List Datum) : Prop where
  signatures : ∀ signature, index.Signs signature → ¬ frameworkPrefix.toList <+: signature.toList
  keys : ∀ key ∈ keys, ¬ frameworkPrefix.toList <+: key.display.toList

/-- Names can be read from the signatures of the index, and no declaring type has the name of a
category. -/
structure Index.AvoidsCategories (index : Index) (conventions : Conventions) : Prop where
  plain : ∀ m ∈ index.methodList, Plain m.baseFqn
  dotless : ∀ m ∈ index.methodList, '.' ∉ m.name.display.toList
  owned : ∀ m ∈ index.methodList, m.typeFqn.display ≠ ""
  apart : ∀ m ∈ index.methodList, ¬ conventions.HasCategory m.typeFqn.display
  unopened : conventions.Unopened
  named : ¬ conventions.HasCategory ""

instance (conventions : Conventions) (category : String) :
    Decidable (conventions.HasCategory category) :=
  inferInstanceAs (Decidable (_ ∨ _))

/-- The trace of the walks from some keys. -/
def Walk.traceOf (conventions : Conventions) (index : Index) (entry : String) (keys : List Datum) :
    Trace :=
  ((start entry).extendAll conventions index keys).trace

/-- A signature of plain names is not marked. -/
theorem Index.not_prefix_of_signs {index : Index}
    (hplain : ∀ m ∈ index.methodList, Plain m.baseFqn) {signature : String}
    (h : index.Signs signature) : ¬ frameworkPrefix.toList <+: signature.toList := by
  obtain ⟨m, hm, hsignature⟩ := h
  obtain ⟨parameters, -, heq⟩ := bind_eq_ok_iff.mp hsignature
  cases heq
  exact (hplain m hm).not_marked parameters

namespace Diagram

/-- Whether a signature marks its participant when it comes first. -/
def hasMark (signature : String) : Bool :=
  (participantOf signature).1.framework

/-- The participant that the diagram of a trace has under the number of a signature. -/
def assigned (t : Trace) (signature : String) : Option Participant :=
  (ofTrace t).participants[number t.uses signature - 1]?

/-- Framework leaves are told from all else: the participant of a step is marked if and only if the
step is a framework leaf, and no framework leaf has the alias of a method or a marker. -/
structure Apart (t : Trace) : Prop where
  marked : ∀ s ∈ t.steps, ∃ p, assigned t s.target = some p ∧ (p.framework ↔ s.isLeaf)
  aliases : ∀ a ∈ t.leaves, ∀ b ∈ t.others, aliasOf t.uses a ≠ aliasOf t.uses b

theorem assigned_eq {t : Trace} {signature : String} (h : signature ∈ t.uses) :
    assigned t signature = some ⟨nameOf signature, isMarked t.uses (nameOf signature)⟩ := by
  have hname : nameOf signature ∈ names t.uses := mem_names_iff.mpr ⟨signature, h, rfl⟩
  rw [assigned, ofTrace_eq, number, Nat.add_sub_cancel, participantsOf, List.getElem?_map,
    List.getElem?_idxOf hname, Option.map_some]

theorem aliasOf_eq_iff {uses : List String} {a b : String} (ha : a ∈ uses) :
    aliasOf uses a = aliasOf uses b ↔ nameOf a = nameOf b := by
  rw [aliasOf, aliasOf, aliasText_inj, number, number, Nat.add_right_cancel_iff,
    List.idxOf_inj (mem_names_iff.mpr ⟨a, ha, rfl⟩)]

/-! ## Marks -/

theorem dropSuffix_append (text suffix : String) : dropSuffix suffix (text ++ suffix) = text := by
  rw [dropSuffix, String.toList_append, List.reverse_append,
    List.isPrefixOf?_eq_some_iff_append_eq.mpr rfl]
  simp

theorem dropSuffix_eq_self {suffix text : String} (h : ¬ suffix.toList <:+ text.toList) :
    dropSuffix suffix text = text := by
  rw [dropSuffix]
  split
  · rename_i rest hrest
    have hrest := List.isPrefixOf?_eq_some_iff_append_eq.mp hrest
    exact absurd (List.reverse_prefix.mp ⟨rest, hrest⟩) h
  · rfl

theorem hasMark_iff {signature : String} :
    hasMark signature ↔
      frameworkPrefix.toList <+: (dropSuffix entryPointSuffix signature).toList := by
  simp only [hasMark, participantOf, CallNode.parts]
  constructor
  · intro h
    by_contra hmark
    rw [CallNode.frameworkText?_eq_none hmark] at h
    cases h
  · rintro ⟨rest, hrest⟩
    rw [CallNode.frameworkText?, List.isPrefixOf?_eq_some_iff_append_eq.mpr hrest]
    rfl

theorem dropSuffix_frameworkLabel (category name : String) :
    dropSuffix entryPointSuffix (frameworkLabel category name) = frameworkLabel category name := by
  refine dropSuffix_eq_self fun h => ?_
  obtain ⟨rest, hrest⟩ := h
  have hends := congrArg (fun cs => (List.reverse cs).take 2) hrest
  simp [frameworkLabel, entryPointSuffix] at hends

theorem hasMark_frameworkLabel (category name : String) :
    hasMark (frameworkLabel category name) := by
  rw [hasMark_iff, dropSuffix_frameworkLabel, frameworkLabel]
  simp only [String.append_assoc]
  rw [String.toList_append]
  exact List.prefix_append _ _

theorem not_hasMark_of_not_prefix {signature : String}
    (h : ¬ frameworkPrefix.toList <+: signature.toList) :
    ¬ hasMark signature := by
  rw [hasMark_iff]
  exact fun hmark => h (hmark.trans (prefix_dropSuffix _ _))

/-- A text that starts with another character is not marked. -/
theorem not_hasMark_append {front : String} {c : Char} (hfront : front.toList.head? = some c)
    (hc : c ≠ 'F') (rest : String) : ¬ hasMark (front ++ rest) := by
  refine not_hasMark_of_not_prefix ?_
  rintro ⟨more, hmore⟩
  have hmark : frameworkPrefix.toList.head? = some 'F' := by decide
  have hhead := congrArg List.head? hmore
  rw [String.toList_append, List.head?_append, List.head?_append, hmark, hfront] at hhead
  exact hc (Option.some.inj hhead).symm

theorem not_hasMark_marker {key : Datum} {text : String}
    (hkey : ¬ frameworkPrefix.toList <+: key.display.toList)
    (h : Walk.MarkerOf key text) : ¬ hasMark text := by
  have herror : "ERROR: Null base FQN for ".toList.head? = some 'E' := by decide
  have hunresolved : "UNRESOLVED: ".toList.head? = some 'U' := by decide
  cases h with
  | blank => exact not_hasMark_append herror (by decide) _
  | entryPoint => rwa [hasMark_iff, dropSuffix_append]
  | unresolved => exact not_hasMark_append hunresolved (by decide) _

section Listed

variable {conventions : Conventions} {index : Index} {keys : List Datum} {t : Trace}
  (ht : ∀ s ∈ t.steps, Walk.Listed conventions index keys s)
include ht

theorem hasMark_of_mem_leaves {signature : String} (hleaf : signature ∈ t.leaves) :
    hasMark signature := by
  obtain ⟨category, name, -, -, -, rfl⟩ := Trace.exists_of_mem_leaves ht hleaf
  exact hasMark_frameworkLabel category name

theorem not_hasMark_of_mem_others (h : index.Unmarked keys) {signature : String}
    (hother : signature ∈ t.others) : ¬ hasMark signature := by
  rcases Trace.signs_or_markerOf_of_mem_others ht hother with hsigns | ⟨key, hkey, -, hmarker⟩
  · exact not_hasMark_of_not_prefix (h.signatures signature hsigns)
  · exact not_hasMark_marker (h.keys key hkey) hmarker

/-- The signatures that mark a participant when they come first are the framework leaves. -/
theorem hasMark_iff_mem_leaves (h : index.Unmarked keys) {signature : String}
    (huses : signature ∈ t.uses) : hasMark signature ↔ signature ∈ t.leaves := by
  refine ⟨fun hmark => ?_, hasMark_of_mem_leaves ht⟩
  rcases Trace.mem_uses_iff.mp huses with hleaf | hother
  · exact hleaf
  · exact absurd hmark (not_hasMark_of_mem_others ht h hother)

theorem isLeaf_iff (h : index.Unmarked keys) {s : Step} (hs : s ∈ t.steps) :
    s.isLeaf ↔ ∃ category name, conventions.HasCategory category ∧
      s.target = frameworkLabel category name := by
  constructor
  · intro hleaf
    obtain ⟨category, name, -, hcategory, -, htarget⟩ :=
      Trace.exists_of_mem_leaves ht (Trace.target_mem_leaves hs hleaf)
    exact ⟨category, name, hcategory, htarget⟩
  · rintro ⟨category, name, -, htarget⟩
    by_contra hleaf
    have hother := Trace.target_mem_others hs hleaf
    rw [htarget] at hother
    exact not_hasMark_of_mem_others ht h hother (hasMark_frameworkLabel category name)

end Listed

/-- The participant of a signature has the mark of the first signature of that name. -/
theorem exists_first {t : Trace} {signature : String} (h : signature ∈ t.uses) :
    ∃ first p, t.uses.find? (nameOf · = nameOf signature) = some first ∧ first ∈ t.uses ∧
      nameOf first = nameOf signature ∧ assigned t signature = some p ∧
      p.name = nameOf signature ∧ p.framework = hasMark first := by
  obtain ⟨first, hfirst, hmem, hname⟩ := exists_find? (mem_names_iff.mpr ⟨signature, h, rfl⟩)
  have hmarked : isMarked t.uses (nameOf signature) = hasMark first := by
    rw [isMarked, hfirst, Option.any_some, hasMark]
  refine ⟨first, _, hfirst, hmem, hname, assigned_eq h, ?_, ?_⟩
  · dsimp only
  · exact hmarked

/-- Framework leaves are told from all else exactly if no other signature has the name of a
framework leaf. -/
theorem apart_iff {t : Trace}
    (hmarks : ∀ signature ∈ t.uses, hasMark signature ↔ signature ∈ t.leaves) :
    Apart t ↔ ∀ a ∈ t.leaves, ∀ b ∈ t.others, nameOf a ≠ nameOf b := by
  have haliases {a b : String} (ha : a ∈ t.leaves) :
      aliasOf t.uses a ≠ aliasOf t.uses b ↔ nameOf a ≠ nameOf b :=
    not_congr (aliasOf_eq_iff (Trace.mem_uses_iff.mpr (.inl ha)))
  constructor
  · exact fun h a ha b hb => (haliases ha).mp (h.aliases a ha b hb)
  · intro hnames
    refine ⟨fun s hs => ?_, fun a ha b hb => (haliases ha).mpr (hnames a ha b hb)⟩
    have huses : s.target ∈ t.uses := List.mem_flatMap_of_mem hs List.mem_cons_self
    obtain ⟨first, p, -, hfirst, hname, hassigned, -, hmark⟩ := exists_first huses
    refine ⟨p, hassigned, ?_⟩
    rw [hmark, hmarks first hfirst]
    refine ⟨fun hleaf => ?_, fun hleaf => ?_⟩
    · by_contra hother
      exact hnames first hleaf _ (Trace.target_mem_others hs hother) hname
    · refine (Trace.mem_uses_iff.mp hfirst).resolve_right fun hother => ?_
      exact hnames _ (Trace.target_mem_leaves hs hleaf) first hother hname.symm

/-! ## Names -/

theorem nameOf_of_owner {signature owner : String}
    (h : (CallNode.parts (dropSuffix entryPointSuffix signature)).1 = owner) (hne : owner ≠ "") :
    nameOf signature = owner := by
  rw [nameOf, participantOf]
  generalize CallNode.parts (dropSuffix entryPointSuffix signature) = parts at h ⊢
  dsimp only
  rw [h, if_neg (mt String.isEmpty_iff.mp hne)]

/-- The mark of an entry point starts with a blank, so it is behind the first parenthesis of a
signature, if it is there at all. -/
theorem exists_dropSuffix_eq {base : String} (h : Plain base) (parameters : String) :
    ∃ rest, (dropSuffix entryPointSuffix (base ++ "(" ++ parameters ++ ")")).toList =
      base.toList ++ '(' :: rest := by
  have htext : (base ++ "(" ++ parameters ++ ")").toList =
      base.toList ++ '(' :: (parameters.toList ++ [')']) := by simp
  by_cases hsuffix : entryPointSuffix.toList <:+ (base ++ "(" ++ parameters ++ ")").toList
  · obtain ⟨front, hfront⟩ := hsuffix
    have hcut : base ++ "(" ++ parameters ++ ")" = String.ofList front ++ entryPointSuffix := by
      rw [← String.toList_inj, ← hfront, String.toList_append, String.toList_ofList]
    rw [hcut, dropSuffix_append, String.toList_ofList]
    have hblank : entryPointSuffix.toList = ' ' :: "(Entry Point)".toList := by decide
    rw [htext, hblank] at hfront
    rcases List.append_eq_append_iff.mp hfront with ⟨between, hbase, hrest⟩ | ⟨between, heq, hrest⟩
    · cases between with
      | nil => cases hrest
      | cons c between =>
        have hc : ' ' = c := (List.cons.inj hrest).1
        have hmem : ' ' ∈ base.toList := by
          rw [hbase, hc]
          exact List.mem_append_right _ List.mem_cons_self
        exact absurd (h _ hmem).2 (by decide)
    · cases between with
      | nil => cases hrest
      | cons c between =>
        obtain ⟨rfl, -⟩ := List.cons.inj hrest
        exact ⟨between, heq⟩
  · rw [dropSuffix_eq_self hsuffix]
    exact ⟨_, htext⟩

/-- The text before the first parenthesis is what a signature names, whatever follows. -/
theorem callee?_eq_base {base text : String} {rest : List Char} (h : Plain base) (hne : base ≠ "")
    (htext : text.toList = base.toList ++ '(' :: rest) : Call.callee? text = some base := by
  have hbase : ∀ c ∈ base.toList, decide (c ≠ '(') = true :=
    fun c hc => decide_eq_true (h c hc).1
  have hfront : (trim text.toList).takeWhile (· ≠ '(') = base.toList := by
    rw [htext, trim_append_cons _ (by decide), trimStart_eq_self h.tidy.trimmed.head,
      List.takeWhile_append_of_pos hbase, List.takeWhile_cons_of_neg (by decide), List.append_nil]
  rw [Call.callee?, hfront, trim_eq_self h.tidy.trimmed]
  simp [hne]

/-- The participant of a method has the name of its declaring type. -/
theorem nameOf_signature {m : Method} {signature : String}
    (hsignature : m.signature = .ok signature) (hplain : Plain m.baseFqn)
    (hdot : '.' ∉ m.name.display.toList) (howner : m.typeFqn.display ≠ "") :
    nameOf signature = m.typeFqn.display := by
  obtain ⟨parameters, -, heq⟩ := bind_eq_ok_iff.mp hsignature
  obtain rfl : m.baseFqn ++ "(" ++ parameters ++ ")" = signature := Except.ok.inj heq
  obtain ⟨rest, hrest⟩ := exists_dropSuffix_eq hplain parameters
  have hne : m.baseFqn ≠ "" := by
    intro hempty
    have := congrArg String.toList hempty
    simp [Method.baseFqn] at this
  refine nameOf_of_owner ?_ howner
  have hmark : CallNode.frameworkText? (dropSuffix entryPointSuffix
      (m.baseFqn ++ "(" ++ parameters ++ ")")) = none :=
    CallNode.frameworkText?_eq_none fun hmark =>
      hplain.not_marked parameters (hmark.trans (prefix_dropSuffix _ _))
  simp only [CallNode.parts, hmark, Option.getD_none, callee?_eq_base hplain hne hrest,
    Option.getD_some]
  rw [Method.baseFqn, Name.ownerAndMember_append hdot]

/-- The participant of a framework leaf has the name of its category. -/
theorem nameOf_frameworkLabel {category name : String} (hbase : Tidy (category ++ "." ++ name))
    (hdot : '.' ∉ name.toList) (hne : category ≠ "") :
    nameOf (frameworkLabel category name) = category := by
  refine nameOf_of_owner ?_ hne
  have hnode := congrArg CallNode.className (CallNode.ofSignature_frameworkLabel hbase hdot)
  rw [dropSuffix_frameworkLabel]
  simpa [CallNode.ofSignature] using hnode

/-- Where no declaring type has the name of a category, nothing else has the name of a framework
leaf. -/
theorem nameOf_ne {conventions : Conventions} {index : Index} {keys : List Datum} {t : Trace}
    (ht : ∀ s ∈ t.steps, Walk.Listed conventions index keys s)
    (h : index.AvoidsCategories conventions) (hkeys : ∀ key ∈ keys, index.Locates key)
    {a b : String} (ha : a ∈ t.leaves) (hb : b ∈ t.others) : nameOf a ≠ nameOf b := by
  obtain ⟨category, name, call, hcategory, hname, rfl⟩ := Trace.exists_of_mem_leaves ht ha
  obtain ⟨htidy, hne⟩ := Call.tidy_of_mem_segments hname
  have hnamed : category ≠ "" := fun hempty => h.named (hempty ▸ hcategory)
  rw [nameOf_frameworkLabel (h.unopened.tidy hcategory htidy hne)
    (Call.not_mem_dot_of_mem_segments hname) hnamed]
  rcases Trace.signs_or_markerOf_of_mem_others ht hb with
    ⟨m, hm, hsignature⟩ | ⟨key, hkey, hlost, -⟩
  · rw [nameOf_signature hsignature (h.plain m hm) (h.dotless m hm) (h.owned m hm)]
    rintro rfl
    exact h.apart m hm hcategory
  · exact absurd (hkeys key hkey) hlost

/-- The participant of a signature is declared under its number. -/
theorem getElem?_declarations {t : Trace} {signature : String} {p : Participant}
    (h : assigned t signature = some p) :
    (ofTrace t).declarations[number t.uses signature - 1]? =
      some (declaration (number t.uses signature) p) := by
  rw [assigned] at h
  rw [declarations, List.getElem?_map, List.getElem?_zipIdx, h, number]
  simp

/-- The participant of a step and the line that declares it, with the signature that comes first of
all that have its name. The mark is that of this signature. -/
structure MarkedByFirst (t : Trace) (s : Step) (first : String) (p : Participant) : Prop where
  comesFirst : t.uses.find? (nameOf · = nameOf s.target) = some first
  belongs : assigned t s.target = some p
  declared : (ofTrace t).declarations[number t.uses s.target - 1]? =
    some (declaration (number t.uses s.target) p)
  named : p.name = nameOf s.target
  marked : p.framework ↔ first ∈ t.leaves

theorem exists_markedByFirst {t : Trace}
    (hmarks : ∀ signature ∈ t.uses, hasMark signature ↔ signature ∈ t.leaves) {s : Step}
    (hs : s ∈ t.steps) : ∃ first p, MarkedByFirst t s first p := by
  have huses : s.target ∈ t.uses := List.mem_flatMap_of_mem hs List.mem_cons_self
  obtain ⟨first, p, hfind, hfirst, -, hassigned, hname, hmark⟩ := exists_first huses
  refine ⟨first, p, hfind, hassigned, getElem?_declarations hassigned, hname, ?_⟩
  rw [hmark, hmarks first hfirst]

/-- How the diagram of a trace marks its participants. The participant of a step has the mark if and
only if the first signature of its name is a framework leaf. So framework leaves are told from
methods and markers exactly if none of these has the name of a framework leaf. This is the case
where no declaring type has the name of a category and every key leads to a method. -/
theorem participants_apart {conventions : Conventions} {index : Index} {keys : List Datum}
    (h : index.Unmarked keys) (entry : String) :
    (∀ s ∈ (Walk.traceOf conventions index entry keys).steps,
      (s.isLeaf ↔ ∃ category name, conventions.HasCategory category ∧
        s.target = frameworkLabel category name) ∧
      ∃ first p, MarkedByFirst (Walk.traceOf conventions index entry keys) s first p) ∧
    (Apart (Walk.traceOf conventions index entry keys) ↔
      ∀ a ∈ (Walk.traceOf conventions index entry keys).leaves,
        ∀ b ∈ (Walk.traceOf conventions index entry keys).others, nameOf a ≠ nameOf b) ∧
    (index.AvoidsCategories conventions → (∀ key ∈ keys, index.Locates key) →
      Apart (Walk.traceOf conventions index entry keys)) := by
  have ht : ∀ s ∈ (Walk.traceOf conventions index entry keys).steps,
      Walk.Listed conventions index keys s := Walk.listed_extendAll conventions index entry keys
  generalize Walk.traceOf conventions index entry keys = t at ht ⊢
  have hmarks : ∀ signature ∈ t.uses, hasMark signature ↔ signature ∈ t.leaves :=
    fun _ huses => hasMark_iff_mem_leaves ht h huses
  refine ⟨fun s hs => ⟨isLeaf_iff ht h hs, exists_markedByFirst hmarks hs⟩, apart_iff hmarks, ?_⟩
  intro havoids hkeys
  exact (apart_iff hmarks).mpr fun _ ha _ hb => nameOf_ne ht havoids hkeys ha hb

/-! ## Samples -/

theorem unopened_default : Conventions.default.Unopened := by
  intro marker hmarker
  have hall : ∀ marker ∈ defaultMarkers, Tidy marker := by decide
  have htidy := hall marker (by simpa [Conventions.default] using hmarker)
  exact ⟨htidy.unopened, htidy.trimmed.head⟩

theorem avoidsCategories_sample :
    (Index.ofTypes Corpus.sample).AvoidsCategories .default where
  plain := by decide +kernel
  dotless := by decide +kernel
  owned := by decide +kernel
  apart := by decide +kernel
  unopened := unopened_default
  named := by decide +kernel

theorem participants_apart_sample :
    Apart (Walk.traceOf .default (Index.ofTypes Corpus.sample) "app.Shop.buy"
      [.text "app.Shop.buy"]) := by
  have hunmarked : (Index.ofTypes Corpus.sample).Unmarked [.text "app.Shop.buy"] :=
    ⟨fun _ h => Index.not_prefix_of_signs avoidsCategories_sample.plain h, by decide +kernel⟩
  have hkeys : ∀ key ∈ [Datum.text "app.Shop.buy"],
      (Index.ofTypes Corpus.sample).Locates key := by
    intro key hkey
    rw [List.mem_singleton.mp hkey]
    exact ⟨"app.Shop.buy", by decide +kernel, by decide +kernel⟩
  exact (participants_apart hunmarked "app.Shop.buy").2.2 avoidsCategories_sample hkeys

/-- A controller. -/
def api : TypeRecord :=
  { Corpus.shop with
    name := .text "Api"
    packageName := .null
    fields := some [⟨.text "repo", .text "Repository", []⟩]
    methods := some [.calling "page" ["repo.find()", "repo.save()"]] }

/-- A class with the name of a category. -/
def repository : TypeRecord :=
  { Corpus.stock with
    name := .text "Repository"
    packageName := .null
    fields := none
    methods := some [.calling "find" []] }

/-- The flow of that controller. -/
def apiFlow : Trace where
  entry := "Api.page()"
  steps :=
    [⟨"Api.page()", none, false⟩, ⟨"Repository.find()", some "Api.page()", false⟩,
      ⟨"Framework method: Repository.save()", some "Api.page()", true⟩]
  suppressed := []

theorem traceOf_api :
    Walk.traceOf .default (Index.ofTypes [api, repository]) "Api.page()" [.text "Api.page()"] =
      apiFlow := by
  let index := Index.ofTypes [api, repository]
  let page := (Method.calling "page" ["repo.find()", "repo.save()"]).ownedBy api
  let find := (Method.calling "find" []).ownedBy repository
  let context : Context := ⟨.text "Api", [], [], [(.text "repo", .text "Repository")]⟩
  let frame : Frame := ⟨page, [.text "repo.find()", .text "repo.save()"], context⟩
  let opened := (((Walk.start "Api.page()").visit "Api.page").visit "Api.page").push
    ⟨"Api.page()", none, false⟩
  let called := (opened.visit "Repository.find").push
    ⟨"Repository.find()", some "Api.page()", false⟩
  have henter : (Walk.start "Api.page()").enter index (.text "Api.page()") =
      (opened, .ok [frame]) := rfl
  have hfind : Conventions.default.resolve index (.text "repo.find()") context =
      .ok (.method find "Repository.find()" .chain) := by decide +kernel
  have hinner : Frame.ofMethod index find = .ok ⟨find, [], ⟨.text "Repository", [], [], []⟩⟩ := rfl
  have hsave : Conventions.default.resolve index (.text "repo.save()") context =
      .ok (.framework "Repository" "save") := by decide +kernel
  have hexplores : Walk.Explores .default index opened frame
      (called.push ⟨"Framework method: Repository.save()", some "Api.page()", true⟩) :=
    .entered hfind rfl (by decide) hinner .done (.framework hsave rfl .done)
  rw [Walk.traceOf, Walk.extendAll, List.foldl_cons, List.foldl_nil, Walk.extend_eq_enter, henter]
  exact congrArg (·.1.trace) (Walk.explores_iff_run.mp hexplores)

/-- The framework leaf has the alias of the class, and no participant is marked. -/
theorem exists_shared_participant :
    Corpus.WellTyped [api, repository] ∧
      Walk.traceOf .default (Index.ofTypes [api, repository]) "Api.page()" [.text "Api.page()"] =
        apiFlow ∧
      "Framework method: Repository.save()" ∈ apiFlow.leaves ∧
      "Repository.find()" ∈ apiFlow.others ∧
      aliasOf apiFlow.uses "Framework method: Repository.save()" =
        aliasOf apiFlow.uses "Repository.find()" ∧
      assigned apiFlow "Framework method: Repository.save()" = some ⟨"Repository", false⟩ ∧
      participantLines apiFlow.uses =
        ["participant \"Api\" as P1", "participant \"Repository\" as P2"] ∧
      ¬ Apart apiFlow := by
  have hleaf : "Framework method: Repository.save()" ∈ apiFlow.leaves := by decide
  have hother : "Repository.find()" ∈ apiFlow.others := by decide
  have hshared : aliasOf apiFlow.uses "Framework method: Repository.save()" =
      aliasOf apiFlow.uses "Repository.find()" := by decide +kernel
  exact ⟨by decide, traceOf_api, hleaf, hother, hshared, by decide +kernel, by decide +kernel,
    fun h => h.aliases _ hleaf _ hother hshared⟩

end Diagram

end EntryFlow
