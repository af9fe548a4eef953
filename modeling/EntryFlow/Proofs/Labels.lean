import EntryFlow.CallGraph
import EntryFlow.Proofs.CalledName
import EntryFlow.Proofs.PlainNames
import EntryFlow.Proofs.Result

/-!
# Labels of nodes

A node of a call graph is made of the text that stands for a method or a framework call in a flow.
That text is taken apart at the last dot before the first parenthesis. For a method this gives back
its declaring type and its name, for a framework call the category and the called name: what was put
together, whatever the types of the parameters are and however many dots a category has.

## Main definitions

* `Conventions.Unopened`: markers without parentheses and without blanks in front.

## Main statements

* `CallNode.ofSignature_signature`, `CallNode.ofSignature_frameworkLabel`: how the two are taken
  apart.
* `CallNode.parts_subset`: the parts have only characters of the text.
* `Conventions.exists_of_resolve_eq_framework`: what a framework call is resolved to.
* `CallNode.ofSignature_decodes`: labels give back what they were made of.
-/

namespace EntryFlow

open Text

/-! ## The last dot -/

namespace Text

variable {sep : Char} {xs ys : List Char}

theorem splitAtLast_of_not_mem (h : sep ∉ xs) : splitAtLast sep xs = none := by
  induction xs with
  | nil => rfl
  | cons x xs ih =>
    obtain ⟨hx, hxs⟩ : sep ≠ x ∧ sep ∉ xs := by simpa using h
    rw [splitAtLast, ih hxs, if_neg hx.symm]

theorem splitAtLast_append (h : sep ∉ ys) : splitAtLast sep (xs ++ sep :: ys) = some (xs, ys) := by
  induction xs with
  | nil => simp [splitAtLast, splitAtLast_of_not_mem h]
  | cons x xs ih => simp [splitAtLast, ih]

theorem eq_append_of_splitAtLast {before after : List Char}
    (h : splitAtLast sep xs = some (before, after)) : xs = before ++ sep :: after := by
  induction xs generalizing before with
  | nil => cases h
  | cons x xs ih =>
    rw [splitAtLast] at h
    split at h
    · rename_i hlater
      cases h
      rw [ih hlater, List.cons_append]
    · split at h
      · rename_i hx
        cases h
        rw [hx, List.nil_append]
      · cases h

end Text

theorem Name.ownerAndMember_append {owner name : String} (h : '.' ∉ name.toList) :
    ownerAndMember (owner ++ "." ++ name) = (owner, name) := by
  have htext : (owner ++ "." ++ name).toList = owner.toList ++ '.' :: name.toList := by simp
  rw [ownerAndMember, htext, splitAtLast_append h]
  simp only [String.ofList_toList]

/-! ## Before the first parenthesis -/

/-- A signature names what stands before its first parenthesis. -/
theorem Call.callee?_signature {base : String} (h : Tidy base) (hne : base ≠ "")
    (parameters : String) : callee? (base ++ "(" ++ parameters ++ ")") = some base := by
  have hbase : base.toList ≠ [] := fun hnil => hne (String.toList_inj.mp hnil)
  have htrimmed : Trimmed (base ++ "(" ++ parameters ++ ")").toList := by
    constructor
    · intro c hc
      apply h.trimmed.head c
      simpa [List.head?_append, List.head?_eq_some_head hbase] using hc
    · intro c hc
      rw [String.toList_append, show ")".toList = [')'] from rfl, List.getLast?_concat] at hc
      cases hc
      decide
  rw [callee?, trim_eq_self htrimmed, h.takeWhile_signature, trim_eq_self h.trimmed]
  simp [hbase]

namespace CallNode

variable {owner name parameters : String}

/-- Behind the mark, if there is one, a text is taken apart at the last dot of its base name. -/
theorem ownerAndMember_callee (hbase : Tidy (owner ++ "." ++ name)) (hdot : '.' ∉ name.toList) :
    Name.ownerAndMember ((Call.callee? (owner ++ "." ++ name ++ "(" ++ parameters ++ ")")).getD
      (owner ++ "." ++ name ++ "(" ++ parameters ++ ")")) = (owner, name) := by
  have hne : owner ++ "." ++ name ≠ "" := by
    intro hempty
    have := congrArg String.toList hempty
    simp at this
  rw [Call.callee?_signature hbase hne, Option.getD_some, Name.ownerAndMember_append hdot]

theorem frameworkText?_marked (text : String) :
    frameworkText? (frameworkPrefix ++ text) = some text := by
  rw [frameworkText?, String.toList_append, List.isPrefixOf?_eq_some_iff_append_eq.mpr rfl]
  simp

theorem frameworkText?_eq_none {signature : String}
    (h : ¬ frameworkPrefix.toList <+: signature.toList) : frameworkText? signature = none := by
  rw [frameworkText?, Option.map_eq_none_iff, Option.eq_none_iff_forall_ne_some]
  intro rest hrest
  exact h ⟨rest, List.isPrefixOf?_eq_some_iff_append_eq.mp hrest⟩

/-- The node of a signature has the declaring type and the name of the method. -/
theorem ofSignature_signature (hbase : Plain (owner ++ "." ++ name)) (hdot : '.' ∉ name.toList) :
    ofSignature (owner ++ "." ++ name ++ "(" ++ parameters ++ ")") =
      ⟨.text (owner ++ "." ++ name ++ "(" ++ parameters ++ ")"), .text owner, .text name,
        .bool false⟩ := by
  simp only [ofSignature, parts, frameworkText?_eq_none (hbase.not_marked parameters),
    Option.getD_none, ownerAndMember_callee hbase.tidy hdot, Option.isSome_none]

/-- The node of a framework call has its category and the called name. -/
theorem ofSignature_frameworkLabel {category : String} (hbase : Tidy (category ++ "." ++ name))
    (hdot : '.' ∉ name.toList) :
    ofSignature (frameworkLabel category name) =
      ⟨.text (frameworkLabel category name), .text category, .text name, .bool true⟩ := by
  have hlabel : frameworkLabel category name =
      frameworkPrefix ++ (category ++ "." ++ name ++ "(" ++ "" ++ ")") := by
    simp only [frameworkLabel, String.append_assoc]
    rfl
  rw [hlabel]
  simp only [ofSignature, parts, frameworkText?_marked, Option.getD_some,
    ownerAndMember_callee hbase hdot, Option.isSome_some]

end CallNode

/-! ## Characters of the parts -/

theorem Name.ownerAndMember_subset (qualified : String) :
    (ownerAndMember qualified).1.toList ⊆ qualified.toList ∧
      (ownerAndMember qualified).2.toList ⊆ qualified.toList := by
  rw [ownerAndMember]
  split
  · rename_i owner member hsplit
    rw [eq_append_of_splitAtLast hsplit, String.toList_ofList, String.toList_ofList]
    refine ⟨List.subset_append_left _ _, ?_⟩
    exact List.Subset.trans (List.subset_cons_self _ _) (List.subset_append_right _ _)
  · exact ⟨List.nil_subset _, List.Subset.refl _⟩

theorem Call.callee_subset (text : String) : ((callee? text).getD text).toList ⊆ text.toList := by
  rw [callee?]
  split
  · exact List.Subset.refl _
  · rw [Option.getD_some, String.toList_ofList]
    intro c hc
    exact mem_of_mem_trim ((List.takeWhile_prefix _).subset (mem_of_mem_trim hc))

namespace CallNode

theorem frameworkText_subset (signature : String) :
    ((frameworkText? signature).getD signature).toList ⊆ signature.toList := by
  rw [frameworkText?]
  cases h : frameworkPrefix.toList.isPrefixOf? signature.toList with
  | none => exact List.Subset.refl _
  | some rest =>
    have hrest := List.isPrefixOf?_eq_some_iff_append_eq.mp h
    rw [Option.map_some, Option.getD_some, String.toList_ofList, ← hrest]
    exact List.subset_append_right _ _

/-- The parts of a signature have only characters of it. -/
theorem parts_subset (signature : String) :
    (parts signature).1.toList ⊆ signature.toList ∧
      (parts signature).2.1.toList ⊆ signature.toList := by
  have hcallee := List.Subset.trans (Call.callee_subset _) (frameworkText_subset signature)
  simp only [parts]
  obtain ⟨howner, hmember⟩ := Name.ownerAndMember_subset
    ((Call.callee? ((frameworkText? signature).getD signature)).getD
      ((frameworkText? signature).getD signature))
  exact ⟨List.Subset.trans howner hcallee, List.Subset.trans hmember hcallee⟩

end CallNode

/-! ## Segments of a call -/

theorem Call.tidy_of_mem_segments {call s : String} (h : s ∈ segments call) : Tidy s ∧ s ≠ "" := by
  rw [segments_eq] at h
  obtain ⟨name, hname, rfl⟩ := List.mem_map.mp h
  obtain ⟨word, hword, -, rfl, hne⟩ := exists_word_of_mem_names hname
  refine ⟨⟨?_, ?_⟩, ?_⟩
  · rw [String.toList_ofList]
    intro hopen
    have hbare : '(' ∈ bare call.toList := hword.subset (mem_of_mem_trim hopen)
    exact absurd (isBracket_of_mem_bareFrom hbare) (by decide)
  · rw [String.toList_ofList]
    exact trimmed_trim word
  · intro hempty
    exact hne (by simpa using congrArg String.toList hempty)

/-! ## Framework calls -/

namespace Conventions

variable {conventions : Conventions} {index : Index} {context : Context} {category : String}

/-- No marker has an opening parenthesis or a blank in front. -/
def Unopened (conventions : Conventions) : Prop :=
  ∀ marker, .text marker ∈ conventions.markers →
    '(' ∉ marker.toList ∧ ∀ c ∈ marker.toList.head?, isBlank c = false

/-- The categories of framework calls: the markers, and that of a type of the kind repository. -/
def HasCategory (conventions : Conventions) (category : String) : Prop :=
  .text category ∈ conventions.markers ∨ category = "Repository"

theorem mem_of_firstMention {words : List String} {markers : List Datum}
    (h : firstMention words markers = .ok (some category)) : .text category ∈ markers := by
  induction markers with
  | nil => cases h
  | cons marker markers ih =>
    simp only [firstMention] at h
    split at h
    · exact List.mem_cons_of_mem _ (ih h)
    · split at h
      · split at h
        · cases h
          exact List.mem_cons_self
        · exact List.mem_cons_of_mem _ (ih h)
      · cases h

theorem mem_of_categoryOfNames {names : List String}
    (h : conventions.categoryOfNames names = .ok (some category)) :
    .text category ∈ conventions.markers := by
  induction names with
  | nil => cases h
  | cons name names ih =>
    obtain ⟨mention, hmention, h⟩ := bind_eq_ok_iff.mp h
    cases mention with
    | some found =>
      cases h
      exact mem_of_firstMention hmention
    | none => exact ih h

theorem hasCategory_of_categoryOfType {name : String}
    (h : conventions.categoryOfType index name = .ok (some category)) :
    conventions.HasCategory category := by
  obtain ⟨mention, hmention, h⟩ := bind_eq_ok_iff.mp h
  cases mention with
  | some found =>
    cases h
    exact .inl (mem_of_firstMention hmention)
  | none =>
    dsimp only at h
    split at h
    · cases h
    · obtain ⟨kind, -, h⟩ := bind_eq_ok_iff.mp h
      split at h
      · cases h
        exact .inr rfl
      · cases h

theorem hasCategory_of_frameworkCategory {segments : List String}
    (h : conventions.frameworkCategory index segments context = .ok (some category)) :
    conventions.HasCategory category := by
  unfold frameworkCategory at h
  split at h
  · cases h
  · obtain ⟨trail, -, h⟩ := bind_eq_ok_iff.mp h
    dsimp only at h
    split at h
    · obtain ⟨byType, hbyType, h⟩ := bind_eq_ok_iff.mp h
      cases byType with
      | some found =>
        cases h
        exact hasCategory_of_categoryOfType hbyType
      | none => exact .inl (mem_of_categoryOfNames h)
    · exact .inl (mem_of_categoryOfNames h)

/-- A framework call has the last segment of the call as its name, behind a category. -/
theorem exists_of_resolve_eq_framework {raw : Datum} {name : String}
    (h : conventions.resolve index raw context = .ok (.framework category name)) :
    ∃ call, raw.callText = .ok call ∧ (Call.segments call).getLast? = some name ∧
      conventions.HasCategory category := by
  obtain ⟨call, hcall, hr | ⟨hr, -⟩ | ⟨hne, ⟨found, hfound, hr⟩ | ⟨_, _, m, -, hm⟩⟩⟩ :=
    resolve_cases h
  · cases hr
  · cases hr
  · cases hr
    refine ⟨call, hcall, ?_, hasCategory_of_frameworkCategory hfound⟩
    rw [List.getLast?_eq_some_getLast hne, Option.getD_some]
  · obtain ⟨_, -, hr⟩ := Resolution.exists_signature_of_found hm
    cases hr

theorem Unopened.tidy (h : conventions.Unopened) (hcategory : conventions.HasCategory category)
    {name : String} (hname : Tidy name) (hne : name ≠ "") : Tidy (category ++ "." ++ name) := by
  obtain ⟨hopen, hhead⟩ :
      '(' ∉ category.toList ∧ ∀ c ∈ category.toList.head?, isBlank c = false := by
    rcases hcategory with hmem | rfl
    · exact h category hmem
    · exact ⟨by decide, fun c hc => by cases hc; decide⟩
  have hlast : name.toList ≠ [] := fun hnil => hne (String.toList_inj.mp hnil)
  refine ⟨?_, ?_, ?_⟩
  · simp [hopen, hname.unopened]
  · intro c hc
    cases hcs : category.toList with
    | nil =>
      rw [String.toList_append, String.toList_append, hcs] at hc
      cases hc
      decide
    | cons d ds =>
      rw [String.toList_append, String.toList_append, hcs] at hc
      cases hc
      exact hhead c (by rw [hcs]; rfl)
  · intro c hc
    apply hname.trimmed.last c
    rwa [String.toList_append, List.getLast?_append_of_ne_nil _ hlast] at hc

end Conventions

/-! ## What labels give back -/

theorem Method.WellTyped.exists_typeFqn {m : Method} (h : m.WellTyped) :
    ∃ owner, m.typeFqn = .text owner := by
  have hname :
      ∃ name, (if m.className.isEmpty then .text "" else m.className) = Datum.text name := by
    split
    · exact ⟨"", rfl⟩
    · rename_i hclass
      exact Datum.exists_eq_text_of_not_isEmpty h.className hclass
  obtain ⟨name, hname⟩ := hname
  rw [typeFqn, hname, Datum.qualify]
  split
  · exact ⟨name, rfl⟩
  · exact ⟨_, rfl⟩

/-- The node of the signature of a method, whatever its parameters are, has its declaring type and
its name and is no framework call, where neither has blanks or opening parentheses and the name has
no dot. The node of the label of a framework call, as any call is resolved to it, has its category
and the last segment of the call and is a framework call, where no marker has an opening parenthesis
or starts with a blank. -/
theorem CallNode.ofSignature_decodes :
    (∀ (index : Index) m, index.WellTyped → m ∈ index.methodList →
      Plain m.typeFqn.display → Plain m.name.display → '.' ∉ m.name.display.toList →
      ∃ signature, m.signature = .ok signature ∧
        ofSignature signature = ⟨.text signature, m.typeFqn, m.name, .bool false⟩) ∧
    ∀ (conventions : Conventions) index raw context category name, conventions.Unopened →
      conventions.resolve index raw context = .ok (.framework category name) →
      ∃ call label, raw.callText = .ok call ∧ (Call.segments call).getLast? = some name ∧
        (Resolution.framework category name).label? = some label ∧
        ofSignature label = ⟨.text label, .text category, .text name, .bool true⟩ := by
  constructor
  · intro index m hindex hm howner hname hdot
    have hm := hindex.of_mem hm
    obtain ⟨parameters, hsignature⟩ := Method.exists_signature hm
    obtain ⟨owner, htype⟩ := hm.exists_typeFqn
    obtain ⟨name, hmethod⟩ := Datum.exists_eq_text hm.name
    have hbase : m.baseFqn = owner ++ "." ++ name := by
      rw [Method.baseFqn, htype, hmethod, Datum.display_text, Datum.display_text]
    rw [htype, Datum.display_text] at howner
    rw [hmethod, Datum.display_text] at hname hdot
    have hplain : Plain (owner ++ "." ++ name) := (howner.append (by decide)).append hname
    refine ⟨_, hsignature, ?_⟩
    rw [hbase, htype, hmethod]
    exact ofSignature_signature hplain hdot
  · intro conventions index raw context category name hmarkers h
    obtain ⟨call, hcall, hlast, hcategory⟩ := Conventions.exists_of_resolve_eq_framework h
    have hsegment : name ∈ Call.segments call := List.mem_of_getLast? hlast
    obtain ⟨htidy, hne⟩ := Call.tidy_of_mem_segments hsegment
    exact ⟨call, _, hcall, hlast, rfl,
      ofSignature_frameworkLabel (hmarkers.tidy hcategory htidy hne)
        (Call.not_mem_dot_of_mem_segments hsegment)⟩

/-- A method with dots, commas and parentheses in the types of its parameters. -/
def Corpus.searching : Method :=
  { Method.calling "find" [] with
    parameters :=
      [⟨.text "Map<String, app.Item>", .text "items"⟩, ⟨.text "@Max(a.B.C) int", .text "count"⟩] }

/-- A corpus with that method. -/
def Corpus.searched : List TypeRecord :=
  [{ stock with methods := [searching] }]

/-- Conventions with a dotted category. -/
def Conventions.dotted : Conventions where
  markers := [.text "item.Repository"]
  receivers := []

theorem CallNode.ofSignature_decodes_dotted :
    (∃ signature, (Corpus.searching.ownedBy Corpus.stock).signature = .ok signature ∧
      ofSignature signature =
        ⟨.text signature, .text "app.Stock", .text "find", .bool false⟩) ∧
    ∃ call label, (Datum.text "this.itemRepository.save(a.b(c).d)").callText = .ok call ∧
      (Call.segments call).getLast? = some "save" ∧
      (Resolution.framework "item.Repository" "save").label? = some label ∧
      ofSignature label =
        ⟨.text label, .text "item.Repository", .text "save", .bool true⟩ := by
  obtain ⟨hmethods, hcalls⟩ := ofSignature_decodes
  have hmarkers : Conventions.dotted.Unopened := by
    intro marker hmarker
    obtain rfl : marker = "item.Repository" := by simpa [Conventions.dotted] using hmarker
    have hhead : "item.Repository".toList.head? = some 'i' := by decide
    refine ⟨by decide, fun c hc => ?_⟩
    rw [hhead] at hc
    cases hc
    decide
  refine ⟨hmethods (Index.ofTypes Corpus.searched) _ (by decide +kernel) (by decide +kernel)
    (by decide) (by decide) (by decide), ?_⟩
  exact hcalls Conventions.dotted (Index.ofTypes Corpus.sample) _ ⟨.text "app.Stock", [], [], []⟩
    _ _ hmarkers (by decide +kernel)

end EntryFlow
