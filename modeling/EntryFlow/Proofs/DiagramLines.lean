import EntryFlow.Diagram
import EntryFlow.Proofs.GraphEdges
import EntryFlow.Proofs.Labels

/-!
# The lines of a diagram

A diagram is drawn step by step, and a participant gets its number when its name comes first. So the
participants of a trace are the names of its signatures without repetition, in order of first use,
and the numbers by which messages refer to them are their places among these names. A number that
was given out stays the same whatever is drawn later.

## Main definitions

* `Trace.uses`: the signatures of a trace in order of use.
* `Diagram.names`, `Diagram.number`, `Diagram.isMarked`: the participants of some signatures.
* `Diagram.InOrderOfUse`: what the names of participants are.
* `Diagram.participantLines`, `Diagram.messageLines`, `Diagram.sourceLines`: the lines that a trace
  is to have.

## Main statements

* `Diagram.numberOf_eq`: the number that a participant gets, and what it adds to the participants.
* `Diagram.ofTrace_eq`: participants and messages of a trace.
* `Diagram.source_lines`: the lines of a diagram.
-/

namespace EntryFlow

/-- The signatures of a trace in order of use: step by step, the target before the caller. -/
def Trace.uses (t : Trace) : List String :=
  t.steps.flatMap Step.signatures

namespace Diagram

/-! ## Participants in order of first use -/

/-- The name of the participant that a signature belongs to. -/
def nameOf (signature : String) : String :=
  (participantOf signature).1.name

/-- The names of the participants of some signatures, each where it comes first. -/
def names (uses : List String) : List String :=
  (uses.map nameOf).eraseDups

/-- The place of the first signature whose participant has that name. -/
def firstUse (uses : List String) (name : String) : Nat :=
  (uses.map nameOf).idxOf name

/-- The number of the participant of a signature: the place of its name, from 1 on. -/
def number (uses : List String) (signature : String) : Nat :=
  (names uses).idxOf (nameOf signature) + 1

/-- Whether the first signature of that participant is a framework call. -/
def isMarked (uses : List String) (name : String) : Bool :=
  (uses.find? fun signature => nameOf signature = name).any fun signature =>
    (participantOf signature).1.framework

/-- The participants of some signatures. -/
def participantsOf (uses : List String) : List Participant :=
  (names uses).map fun name => ⟨name, isMarked uses name⟩

variable {uses more : List String} {signature : String}

theorem mem_names_iff {name : String} : name ∈ names uses ↔ ∃ s ∈ uses, nameOf s = name := by
  rw [names, List.mem_eraseDups, List.mem_map]

theorem names_concat (uses : List String) (signature : String) :
    names (uses ++ [signature]) =
      if nameOf signature ∈ names uses then names uses else names uses ++ [nameOf signature] := by
  rw [names, List.map_append, List.map_singleton, Table.eraseDups_concat, names]

theorem prefix_names (uses more : List String) : names uses <+: names (uses ++ more) := by
  rw [names, names, List.map_append, List.eraseDups_append]
  exact List.prefix_append _ _

theorem firstUse_append {name : String} (h : name ∈ names uses) (more : List String) :
    firstUse (uses ++ more) name = firstUse uses name := by
  rw [firstUse, List.map_append, List.idxOf_append_of_mem (List.mem_eraseDups.mp h), firstUse]

theorem firstUse_lt_concat {name : String} (h : name ∈ names uses)
    (hnew : nameOf signature ∉ names uses) :
    firstUse (uses ++ [signature]) name < firstUse (uses ++ [signature]) (nameOf signature) := by
  have hfresh : nameOf signature ∉ uses.map nameOf := fun h => hnew (List.mem_eraseDups.mpr h)
  have hlater : firstUse (uses ++ [signature]) (nameOf signature) = (uses.map nameOf).length := by
    rw [firstUse, List.map_append, List.idxOf_append_of_notMem hfresh, List.map_singleton,
      List.idxOf_cons_self, Nat.add_zero]
  rw [firstUse_append h, hlater]
  exact List.idxOf_lt_length_of_mem (List.mem_eraseDups.mp h)

theorem sorted_names (uses : List String) :
    (names uses).Pairwise fun a b => firstUse uses a < firstUse uses b := by
  induction uses using List.reverseRecOn with
  | nil => exact .nil
  | append_singleton uses signature ih =>
    have hkept : (names uses).Pairwise fun a b =>
        firstUse (uses ++ [signature]) a < firstUse (uses ++ [signature]) b := by
      refine ih.imp_of_mem fun ha hb hlt => ?_
      rwa [firstUse_append ha, firstUse_append hb]
    rw [names_concat]
    split
    · exact hkept
    · rename_i hnew
      refine List.pairwise_append.mpr ⟨hkept, List.pairwise_singleton _ _, fun a ha b hb => ?_⟩
      rw [List.mem_singleton.mp hb]
      exact firstUse_lt_concat ha hnew

/-- Some names are those of the participants of some signatures, in order of first use. -/
structure InOrderOfUse (uses : List String) (names : List String) : Prop where
  mem_iff : ∀ name, name ∈ names ↔ ∃ signature ∈ uses, nameOf signature = name
  nodup : names.Nodup
  sorted : names.Pairwise fun a b => firstUse uses a < firstUse uses b

theorem inOrderOfUse_names (uses : List String) : InOrderOfUse uses (names uses) where
  mem_iff _ := mem_names_iff
  nodup := (sorted_names uses).imp fun hlt heq => absurd (heq ▸ hlt) (Nat.lt_irrefl _)
  sorted := sorted_names uses

/-- A number that was given out stays. -/
theorem number_append (h : signature ∈ uses) (more : List String) :
    number (uses ++ more) signature = number uses signature := by
  obtain ⟨later, hlater⟩ := prefix_names uses more
  have hname : nameOf signature ∈ names uses := mem_names_iff.mpr ⟨signature, h, rfl⟩
  rw [number, ← hlater, List.idxOf_append_of_mem hname, number]

/-- One of the signatures of a participant comes first. -/
theorem exists_find? {name : String} (h : name ∈ names uses) :
    ∃ first, uses.find? (nameOf · = name) = some first ∧ first ∈ uses ∧ nameOf first = name := by
  obtain ⟨first, hfirst⟩ : ∃ first, uses.find? (nameOf · = name) = some first := by
    rw [← Option.isSome_iff_exists, List.find?_isSome]
    obtain ⟨s, hs, hname⟩ := mem_names_iff.mp h
    exact ⟨s, hs, decide_eq_true hname⟩
  have hname : nameOf first = name := by simpa using List.find?_some hfirst
  exact ⟨first, hfirst, List.mem_of_find?_eq_some hfirst, hname⟩

theorem isMarked_append {name : String} (h : name ∈ names uses) (more : List String) :
    isMarked (uses ++ more) name = isMarked uses name := by
  obtain ⟨first, hfirst, -⟩ := exists_find? h
  rw [isMarked, isMarked, List.find?_append, hfirst, Option.some_or]

theorem isMarked_concat (h : nameOf signature ∉ names uses) :
    isMarked (uses ++ [signature]) (nameOf signature) = (participantOf signature).1.framework := by
  have hnone : uses.find? (nameOf · = nameOf signature) = none := by
    rw [List.find?_eq_none]
    intro s hs hname
    exact h (mem_names_iff.mpr ⟨s, hs, of_decide_eq_true hname⟩)
  rw [isMarked, List.find?_append, hnone, Option.none_or, List.find?_singleton,
    if_pos (decide_eq_true rfl), Option.any_some]

theorem participantsOf_concat (uses : List String) (signature : String) :
    participantsOf (uses ++ [signature]) =
      if nameOf signature ∈ names uses then participantsOf uses
      else participantsOf uses ++ [(participantOf signature).1] := by
  have hold : (names uses).map (fun name =>
      Participant.mk name (isMarked (uses ++ [signature]) name)) = participantsOf uses := by
    refine List.map_congr_left fun name hname => ?_
    rw [isMarked_append hname]
  rw [participantsOf, names_concat]
  split
  · exact hold
  · rename_i hnew
    rw [List.map_append, hold, List.map_singleton, isMarked_concat hnew, nameOf]

theorem map_name_participantsOf (uses : List String) :
    (participantsOf uses).map Participant.name = names uses := by
  rw [participantsOf, List.map_map]
  exact List.map_id _

/-- A participant gets the place of its name, and is added if its name is new. -/
theorem numberOf_eq_of_map {d : Diagram} {xs : List String}
    (h : d.participants.map Participant.name = xs) (p : Participant) :
    d.numberOf p =
      ((if p.name ∈ xs then xs else xs ++ [p.name]).idxOf p.name + 1,
        ⟨if p.name ∈ xs then d.participants else d.participants ++ [p], d.messages⟩) := by
  have hfind : d.participants.findIdx? (fun q => q.name = p.name) = xs.idxOf? p.name := by
    rw [← h, List.idxOf?, List.findIdx?_map]
    congr
  rw [numberOf, hfind]
  by_cases hold : p.name ∈ xs
  · have hfound : xs.idxOf? p.name = some (xs.idxOf p.name) :=
      List.findIdx?_eq_some_of_exists ⟨_, hold, beq_self_eq_true _⟩
    rw [hfound, if_pos hold, if_pos hold]
  · rw [List.idxOf?_eq_none_iff.mpr hold, if_neg hold, if_neg hold,
      List.idxOf_append_of_notMem hold, List.idxOf_cons_self, Nat.add_zero, ← h, List.length_map]

/-- The number of a signature where the signatures before it are drawn, and what it adds. -/
theorem numberOf_eq {d : Diagram} (h : d.participants = participantsOf uses) (signature : String) :
    d.numberOf (participantOf signature).1 =
      (number (uses ++ [signature]) signature,
        ⟨participantsOf (uses ++ [signature]), d.messages⟩) := by
  have hnames : d.participants.map Participant.name = names uses := by
    rw [h, map_name_participantsOf]
  rw [numberOf_eq_of_map hnames, participantsOf_concat, number, names_concat, h, nameOf]

/-! ## Messages -/

/-- The message of a step with a caller, when the participants have their numbers. -/
def message? (number : String → Nat) (s : Step) : Option Message :=
  s.caller.map fun caller =>
    ⟨number caller, number s.target, (participantOf s.target).2, s.terminal⟩

theorem message?_append {s : Step} (h : ∀ signature ∈ s.signatures, signature ∈ uses)
    (more : List String) : message? (number (uses ++ more)) s = message? (number uses) s := by
  obtain ⟨target, caller?, terminal⟩ := s
  cases caller? with
  | none => rfl
  | some caller =>
    have hcaller : caller ∈ uses := h caller (by simp [Step.signatures])
    have htarget : target ∈ uses := h target (by simp [Step.signatures])
    simp only [message?, Option.map_some, number_append hcaller, number_append htarget]

/-- A step adds its signatures to the participants, and its message if it has one. -/
theorem addStep_eq {d : Diagram} (h : d.participants = participantsOf uses) (s : Step) :
    d.addStep s =
      ⟨participantsOf (uses ++ s.signatures),
        d.messages ++ (message? (number (uses ++ s.signatures)) s).toList⟩ := by
  obtain ⟨target, caller?, terminal⟩ := s
  have htarget := numberOf_eq h target
  cases caller? with
  | none =>
    simp only [addStep, htarget, Step.signatures, message?]
    simp
  | some caller =>
    have hcaller := numberOf_eq (d := { d with participants := participantsOf (uses ++ [target]) })
      rfl caller
    have hkept : number (uses ++ [target] ++ [caller]) target = number (uses ++ [target]) target :=
      number_append (by simp) _
    have hsplit : uses ++ [target, caller] = uses ++ [target] ++ [caller] := by simp
    simp only [addStep, htarget, hcaller, Step.signatures, message?, Option.toList_some,
      Option.map_some, hsplit, hkept]

/-- The participants and messages of a trace. -/
theorem ofTrace_eq (t : Trace) :
    ofTrace t = ⟨participantsOf t.uses, t.steps.filterMap (message? (number t.uses))⟩ := by
  rw [ofTrace, Trace.uses]
  induction t.steps using List.reverseRecOn with
  | nil => rfl
  | append_singleton steps s ih =>
    have huses : (steps ++ [s]).flatMap Step.signatures =
        steps.flatMap Step.signatures ++ s.signatures := by simp
    have hkept : ∀ step ∈ steps,
        message? (number (steps.flatMap Step.signatures ++ s.signatures)) step =
          message? (number (steps.flatMap Step.signatures)) step := by
      intro step hstep
      exact message?_append (fun signature h => List.mem_flatMap_of_mem hstep h) _
    rw [List.foldl_append, List.foldl_cons, List.foldl_nil, ih, addStep_eq rfl, huses,
      List.filterMap_append, List.filterMap_congr hkept, List.filterMap_eq_flatMap_toList _ [s],
      List.flatMap_singleton]

/-! ## Lines -/

/-- The name that stands for a participant of a number. -/
def aliasText (n : Nat) : String :=
  "P" ++ toString n

/-- The name that stands for the participant of a signature. -/
def aliasOf (uses : List String) (signature : String) : String :=
  aliasText (number uses signature)

/-- The lines that declare participants: their names in order of first use, numbered from 1 on. -/
def participantLines (uses : List String) : List String :=
  ((names uses).zipIdx 1).map fun (name, i) =>
    "participant \"" ++ name ++ "\" as " ++ aliasText i ++
      if isMarked uses name then " <<framework>>" else ""

/-- The lines of the steps that have a caller. -/
def messageLines (t : Trace) : List String :=
  t.steps.filterMap fun s => s.caller.map fun caller =>
    aliasOf t.uses caller ++ (if s.terminal then " --> " else " -> ") ++ aliasOf t.uses s.target ++
      ": " ++ (participantOf s.target).2 ++ "()"

/-- The line of a title, which is the entry unless one is given. -/
def titleLines (t : Trace) (title : String) : List String :=
  if title ≠ "" then ["title " ++ title] else if t.entry ≠ "" then ["title " ++ t.entry] else []

/-- The lines of the diagram of a trace. -/
def sourceLines (t : Trace) (title : String) : List String :=
  ["@startuml"] ++ titleLines t title ++ ["autonumber"] ++ participantLines t.uses ++
    messageLines t ++ ["@enduml"]

theorem declarations_ofTrace (t : Trace) :
    (ofTrace t).declarations = participantLines t.uses := by
  have hline (n : Nat) (p : Participant) : declaration n p =
      "participant \"" ++ p.name ++ "\" as " ++ aliasText n ++
        if p.framework then " <<framework>>" else "" := by
    unfold declaration
    rw [show "\" as P" = "\" as " ++ "P" from rfl, aliasText]
    simp only [String.append_assoc]
  rw [declarations, ofTrace_eq, participantLines, participantsOf, List.zipIdx_map, List.map_map,
    List.zipIdx_succ, List.map_map]
  refine List.map_congr_left fun (name, i) _ => ?_
  exact hline _ _

theorem lines_messages_ofTrace (t : Trace) :
    (ofTrace t).messages.map Message.line = messageLines t := by
  rw [ofTrace_eq, List.map_filterMap]
  refine List.filterMap_congr fun s _ => ?_
  rw [message?, Option.map_map]
  refine congrArg (Option.map · s.caller) (funext fun caller => ?_)
  simp only [Function.comp_apply, Message.line, aliasOf, aliasText, String.append_assoc]

theorem lines_ofTrace (t : Trace) (title : String) :
    (ofTrace t).lines (if title.isEmpty then t.entry else title) = sourceLines t title := by
  have htitle : (if (if title.isEmpty then t.entry else title).isEmpty then []
      else ["title " ++ if title.isEmpty then t.entry else title]) = titleLines t title := by
    by_cases h : title = "" <;> by_cases he : t.entry = "" <;> simp [titleLines, h, he]
  rw [lines, htitle, declarations_ofTrace, lines_messages_ofTrace, sourceLines]

/-- Different numbers have different names. -/
theorem aliasText_inj {m n : Nat} : aliasText m = aliasText n ↔ m = n := by
  refine ⟨fun h => ?_, fun h => congrArg _ h⟩
  have hdigits : Nat.toDigits 10 m = Nat.toDigits 10 n := by
    simpa [aliasText] using congrArg String.toList h
  simpa using congrArg (Nat.ofDigitChars 10 · 0) hdigits

/-! ## Characters of names -/

theorem prefix_dropSuffix (suffix text : String) :
    (dropSuffix suffix text).toList <+: text.toList := by
  rw [dropSuffix]
  split
  · rename_i rest hrest
    have hrest := List.isPrefixOf?_eq_some_iff_append_eq.mp hrest
    refine ⟨suffix.toList, ?_⟩
    rw [String.toList_ofList]
    simpa using congrArg List.reverse hrest
  · exact List.prefix_refl _

/-- Participants and methods of a signature have only characters of it. -/
theorem participantOf_subset (signature : String) :
    (nameOf signature).toList ⊆ signature.toList ∧
      (participantOf signature).2.toList ⊆ signature.toList := by
  have hparts := CallNode.parts_subset (dropSuffix entryPointSuffix signature)
  have hdrop := (prefix_dropSuffix entryPointSuffix signature).subset
  simp only [nameOf, participantOf]
  generalize CallNode.parts (dropSuffix entryPointSuffix signature) = parts at hparts ⊢
  obtain ⟨hclass, hmethod⟩ := hparts
  refine ⟨?_, List.Subset.trans hmethod hdrop⟩
  split
  · exact List.Subset.trans hmethod hdrop
  · exact List.Subset.trans hclass hdrop

/-! ## No line breaks -/

theorem not_mem_toString {n : Nat} : '\n' ∉ (toString n).toList := by
  rw [Nat.toString_eq_repr, Nat.toList_repr]
  intro hbreak
  exact absurd (Nat.isDigit_of_mem_toDigits (by decide) (by decide) hbreak) (by decide)

theorem not_mem_aliasText (n : Nat) : '\n' ∉ (aliasText n).toList := by
  rw [aliasText, String.toList_append, List.mem_append, not_or]
  exact ⟨by decide, not_mem_toString⟩

theorem not_mem_participantLines (h : ∀ s ∈ uses, '\n' ∉ s.toList) {line : String}
    (hline : line ∈ participantLines uses) : '\n' ∉ line.toList := by
  obtain ⟨⟨name, i⟩, hmem, rfl⟩ := List.mem_map.mp hline
  obtain ⟨s, hs, rfl⟩ := mem_names_iff.mp (List.fst_mem_of_mem_zipIdx hmem)
  have hname : '\n' ∉ (nameOf s).toList := fun hbreak => h s hs ((participantOf_subset s).1 hbreak)
  have hmark : '\n' ∉ (if isMarked uses (nameOf s) then " <<framework>>" else "").toList := by
    split <;> decide
  simp only [String.toList_append, List.mem_append, not_or]
  exact ⟨⟨⟨⟨by decide, hname⟩, by decide⟩, not_mem_aliasText i⟩, hmark⟩

theorem not_mem_messageLines {t : Trace} (h : ∀ s ∈ t.uses, '\n' ∉ s.toList) {line : String}
    (hline : line ∈ messageLines t) : '\n' ∉ line.toList := by
  obtain ⟨s, hs, hmessage⟩ := List.mem_filterMap.mp hline
  obtain ⟨caller, -, rfl⟩ := Option.map_eq_some_iff.mp hmessage
  have htarget : s.target ∈ t.uses := List.mem_flatMap_of_mem hs List.mem_cons_self
  have hmethod : '\n' ∉ (participantOf s.target).2.toList :=
    fun hbreak => h _ htarget ((participantOf_subset _).2 hbreak)
  have harrow : '\n' ∉ (if s.terminal then " --> " else " -> ").toList := by
    split <;> decide
  simp only [String.toList_append, List.mem_append, not_or]
  exact ⟨⟨⟨⟨⟨not_mem_aliasText _, harrow⟩, not_mem_aliasText _⟩, by decide⟩, hmethod⟩, by decide⟩

/-! ## The source -/

theorem not_mem_titleLines {t : Trace} {title line : String} (htitle : '\n' ∉ title.toList)
    (hentry : '\n' ∉ t.entry.toList) (hline : line ∈ titleLines t title) :
    '\n' ∉ line.toList := by
  have hplain {text : String} (h : '\n' ∉ text.toList) : '\n' ∉ ("title " ++ text).toList := by
    rw [String.toList_append, List.mem_append, not_or]
    exact ⟨by decide, h⟩
  rw [titleLines] at hline
  split at hline
  · rw [List.mem_singleton.mp hline]
    exact hplain htitle
  · split at hline
    · rw [List.mem_singleton.mp hline]
      exact hplain hentry
    · cases hline

theorem not_mem_sourceLines {t : Trace} {title line : String} (htitle : '\n' ∉ title.toList)
    (hentry : '\n' ∉ t.entry.toList) (huses : ∀ s ∈ t.uses, '\n' ∉ s.toList)
    (hline : line ∈ sourceLines t title) : '\n' ∉ line.toList := by
  have hfixed : ∀ fixed ∈ ["@startuml", "autonumber", "@enduml"], '\n' ∉ fixed.toList := by decide
  simp only [sourceLines, List.mem_append, List.mem_singleton] at hline
  rcases hline with ((((rfl | hline) | rfl) | hline) | hline) | rfl
  · exact hfixed _ (by simp)
  · exact not_mem_titleLines htitle hentry hline
  · exact hfixed _ (by simp)
  · exact not_mem_participantLines huses hline
  · exact not_mem_messageLines huses hline
  · exact hfixed _ (by simp)

/-- The lines of the source of a trace with steps. Participants are declared once, in order of first
use; messages refer to declared participants only, and to the same one for signatures of the same
participant. -/
theorem source_lines {t : Trace} {title : String} (hsteps : t.steps ≠ [])
    (htitle : '\n' ∉ title.toList) (hentry : '\n' ∉ t.entry.toList)
    (huses : ∀ s ∈ t.uses, '\n' ∉ s.toList) :
    (source t title).toList.splitOn '\n' = (sourceLines t title ++ [""]).map String.toList ∧
      InOrderOfUse t.uses (names t.uses) ∧
      (∀ a ∈ t.uses, ∃ i, (names t.uses)[i]? = some (nameOf a) ∧
        aliasOf t.uses a = aliasText (i + 1)) ∧
      ∀ a ∈ t.uses, ∀ b ∈ t.uses, aliasOf t.uses a = aliasOf t.uses b ↔ nameOf a = nameOf b := by
  have hdeclared {a : String} (ha : a ∈ t.uses) : nameOf a ∈ names t.uses :=
    mem_names_iff.mpr ⟨a, ha, rfl⟩
  refine ⟨?_, inOrderOfUse_names t.uses, fun a ha => ?_, fun a ha b hb => ?_⟩
  · have hsource : source t title = "\n".intercalate (sourceLines t title ++ [""]) := by
      rw [String.intercalate_append_of_ne_nil (by simp [sourceLines]) (by simp),
        String.intercalate_singleton, String.append_empty, source, if_neg (by simpa using hsteps),
        lines_ofTrace]
    rw [hsource, String.toList_intercalate]
    refine List.splitOn_intercalate '\n' (fun text htext => ?_) (by simp)
    obtain ⟨line, hline, rfl⟩ := List.mem_map.mp htext
    rcases List.mem_append.mp hline with hline | hline
    · exact not_mem_sourceLines htitle hentry huses hline
    · rw [List.mem_singleton.mp hline]
      decide
  · exact ⟨(names t.uses).idxOf (nameOf a), List.getElem?_idxOf (hdeclared ha), rfl⟩
  · rw [aliasOf, aliasOf, aliasText_inj, number, number, Nat.add_right_cancel_iff,
      List.idxOf_inj (hdeclared ha)]

/-- A trace with a caller that no step has as its target, and a framework call. -/
def payment : Trace where
  entry := "app.Shop.buy(Order)"
  steps :=
    [⟨"app.Shop.buy(Order) (Entry Point)", none, false⟩,
      ⟨"app.Till.pay(int)", some "app.Shop.buy(Order)", false⟩,
      ⟨"Framework method: Repository.save()", some "app.Stock.take()", true⟩]
  suppressed := []

theorem source_lines_payment :
    (source payment "").toList.splitOn '\n' =
      ["@startuml", "title app.Shop.buy(Order)", "autonumber", "participant \"app.Shop\" as P1",
        "participant \"app.Till\" as P2", "participant \"Repository\" as P3 <<framework>>",
        "participant \"app.Stock\" as P4", "P1 -> P2: pay()", "P4 --> P3: save()", "@enduml",
        ""].map String.toList := by
  refine (source_lines (by decide) (by decide) (by decide) (by decide)).1.trans ?_
  decide +kernel

end Diagram

end EntryFlow
