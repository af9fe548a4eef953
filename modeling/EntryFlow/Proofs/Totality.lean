import EntryFlow.Proofs.Result
import EntryFlow.Proofs.WellTyped

/-!
# Resolution never fails on a well-typed corpus

Over a well-formed index each look-up has a result, and so has the resolution of every call that is
a text or missing. The proof goes through the definitions from the inside out, with one lemma for
each.

## Main definitions

* `Context.WellTyped`: contexts in which every visible name has a text as its type.

## Main statements

* `Context.gives_ofMethod`: a method of the index has a context.
* `Conventions.total_resolve`: a call in a well-typed context has a resolution.
-/

namespace EntryFlow

/-! ## Types and their parents -/

namespace Index

theorem total_resolveType (index : Index) {declared : Datum} (h : declared.isOptionalText) :
    Total (index.resolveType declared) := by
  refine Gives.map (P := fun _ => True) ?_ fun _ _ => trivial
  cases declared with
  | null => exact .ok trivial
  | text s =>
    simp only [Datum.rawType]
    split <;> exact .ok trivial
  | bool | int | float | list | object => simp [Datum.isOptionalText] at h

namespace WellTyped

variable {index : Index} (h : index.WellTyped)
include h

/-- Every declared parent can be read, so a lineage ends for no fault. -/
theorem fault?_lineageFrom (fuel : Nat) (seen : List Datum) (current : Datum) :
    (index.lineageFrom fuel seen current).fault? = none := by
  induction fuel generalizing seen current with
  | zero => rfl
  | succ fuel ih =>
    unfold lineageFrom
    split
    · rfl
    · split
      · rfl
      · rename_i t ht
        split
        · rfl
        · obtain ⟨parent, hparent, -⟩ :=
            total_resolveType index (h.of_type? ht).parent
          rw [hparent]
          exact ih _ _

theorem gives_lookupMember (t : Datum) (name : String) :
    Gives (index.lookupMember t name) fun found => ∀ m ∈ found, m.WellTyped := by
  have hfound : ∃ found, index.lookupMember t name = .ok found := by
    simp only [lookupMember]
    split
    · exact ⟨_, rfl⟩
    · rw [lineage, h.fault?_lineageFrom]
      exact ⟨_, rfl⟩
  obtain ⟨found, hfound⟩ := hfound
  refine ⟨found, hfound, ?_⟩
  rintro m rfl
  exact h.of_mem (mem_methodList_of_lookupMember hfound)

/-- The types of all fields that a type has or inherits. -/
theorem gives_fieldTypes (t : Datum) :
    Gives (index.fieldTypes t) fun table => ∀ e ∈ table, e.2.isText := by
  have hfields : ∀ f ∈ index.fieldsOf (index.lineage t).types, f.WellTyped := by
    intro f hf
    obtain ⟨owner, howner, hf⟩ := List.mem_flatMap.mp hf
    obtain ⟨fqn, -, hfqn⟩ := List.mem_filterMap.mp howner
    exact (h.of_type? hfqn).fields f hf
  simp only [fieldTypes]
  rw [if_pos (List.all_eq_true.mpr fun f hf => Datum.isKey_of_isText (hfields f hf).name),
    lineage, h.fault?_lineageFrom]
  refine .ok fun e he => ?_
  rcases Table.mem_foldl_setNew (fun f : Field => (f.name, f.type)) _ he with he | ⟨f, hf, rfl⟩
  · cases he
  · exact (hfields f hf).type

end WellTyped

end Index

/-! ## Contexts -/

/-- Every visible name has a text as its declared type. -/
structure Context.WellTyped (context : Context) : Prop where
  parameters : ∀ e ∈ context.parameters, e.2.isText
  locals : ∀ e ∈ context.locals, e.2.isText
  fields : ∀ e ∈ context.fields, e.2.isText

namespace Context

theorem gives_scope {vs : List Variable} (h : ∀ v ∈ vs, v.WellTyped) :
    Gives (scope vs) fun table => ∀ e ∈ table, e.2.isText := by
  unfold scope
  rw [if_pos (List.all_eq_true.mpr fun v hv => Datum.isKey_of_isText (h v hv).name)]
  refine .ok fun e he => ?_
  obtain ⟨v, hv, rfl⟩ := List.mem_map.mp (Table.mem_of_mem_ofList he)
  exact (h v hv).type

/-- A method of the index has a context, and it is well-typed. -/
theorem gives_ofMethod {index : Index} (h : index.WellFormed) {m : Method} (hm : m.WellTyped) :
    Gives (ofMethod index m) Context.WellTyped := by
  unfold ofMethod
  refine (gives_scope hm.parameters).bind fun parameters hparameters => ?_
  refine (gives_scope hm.locals).bind fun locals hlocals => ?_
  exact (h.wellTyped.gives_fieldTypes m.typeFqn).bind fun fields hfields =>
    .ok ⟨hparameters, hlocals, hfields⟩

theorem WellTyped.isText_of_typeOf? {context : Context} (h : context.WellTyped)
    {name declared : Datum} (hd : context.typeOf? name = some declared) : declared.isText := by
  obtain ⟨table, htable, hfound⟩ := List.exists_of_findSome?_eq_some hd
  simp only [List.mem_cons, List.not_mem_nil, or_false] at htable
  rcases htable with rfl | rfl | rfl
  · exact h.parameters _ (Table.mem_of_find? hfound)
  · exact h.locals _ (Table.mem_of_find? hfound)
  · exact h.fields _ (Table.mem_of_find? hfound)

end Context

/-! ## Chains -/

namespace Index

theorem total_receiverType (index : Index) {context : Context} (hc : context.WellTyped)
    (receiver : Datum) : Total (index.receiverType receiver context) := by
  unfold receiverType
  split
  · exact .ok trivial
  · rename_i declared hd
    split
    · exact .ok trivial
    · have hdeclared := Datum.isOptionalText_of_isText (hc.isText_of_typeOf? hd)
      exact (total_resolveType index hdeclared).bind fun _ _ => .ok trivial

namespace WellTyped

variable {index : Index} (h : index.WellTyped)
include h

theorem total_trailFrom (names : List String) (current : String) :
    Total (index.trailFrom current names) := by
  induction names generalizing current with
  | nil => exact .ok trivial
  | cons name names ih =>
    unfold trailFrom
    refine (h.gives_lookupMember (.text current) name).bind fun found hfound => ?_
    split
    · exact .ok trivial
    · split
      · exact .ok trivial
      · exact (total_resolveType index (hfound _ rfl).returnType).bind fun next _ =>
          (ih next).bind fun _ _ => .ok trivial

theorem total_typeTrail {context : Context} (hc : context.WellTyped) (segments : List String) :
    Total (index.typeTrail segments context) := by
  unfold typeTrail
  split
  · refine (total_receiverType index hc _).bind fun type _ => ?_
    split
    · exact .ok trivial
    · exact (h.total_trailFrom _ _).bind fun _ _ => .ok trivial
  · exact .ok trivial

theorem total_followFrom (names : List String) (current : String) :
    Total (index.followFrom current names) := by
  induction names generalizing current with
  | nil => exact .ok trivial
  | cons name names ih =>
    unfold followFrom
    refine (h.gives_lookupMember (.text current) name).bind fun found hfound => ?_
    split
    · exact .ok trivial
    · split
      · exact .ok trivial
      · split
        · exact .ok trivial
        · exact (total_resolveType index (hfound _ rfl).returnType).bind fun next _ => ih next

theorem total_follow {context : Context} (hc : context.WellTyped) (segments : List String) :
    Total (index.follow segments context) := by
  unfold follow
  split
  · refine (total_receiverType index hc _).bind fun type _ => ?_
    split
    · exact .ok trivial
    · exact h.total_followFrom _ _
  · exact .ok trivial

end WellTyped

end Index

/-! ## Framework and logging calls -/

theorem TypeRecord.total_kindText {t : TypeRecord} (h : t.WellTyped) : Total t.kindText := by
  unfold kindText
  split
  · exact .ok trivial
  · rename_i hne
    obtain ⟨s, hs⟩ := Datum.exists_eq_text_of_not_isEmpty h.kind hne
    rw [hs]
    exact .ok trivial

namespace Conventions

theorem total_startsLogging (call : List Char) {receivers : List Datum}
    (h : ∀ d ∈ receivers, d.isText) : Total (startsLogging call receivers) := by
  induction receivers with
  | nil => exact .ok trivial
  | cons d receivers ih =>
    obtain ⟨s, rfl⟩ := Datum.exists_eq_text (h d List.mem_cons_self)
    unfold startsLogging
    split
    · exact .ok trivial
    · exact ih fun e he => h e (List.mem_cons_of_mem _ he)

theorem total_firstMention (words : List String) {markers : List Datum}
    (h : ∀ d ∈ markers, d.isText) : Total (firstMention words markers) := by
  induction markers with
  | nil => exact .ok trivial
  | cons d markers ih =>
    obtain ⟨s, rfl⟩ := Datum.exists_eq_text (h d List.mem_cons_self)
    have hrest := ih fun e he => h e (List.mem_cons_of_mem _ he)
    simp only [firstMention]
    split
    · exact hrest
    · split
      · exact .ok trivial
      · exact hrest

variable {conventions : Conventions} (hw : conventions.WellTyped)
include hw

theorem total_isLogging (call : String) : Total (conventions.isLogging (.text call)) := by
  refine Gives.bind (P := fun _ => True) ?_ fun _ _ => total_startsLogging _ hw.receivers
  simp only [Datum.callText]
  split <;> exact .ok trivial

theorem total_markerIn (identifier : String) : Total (conventions.markerIn identifier) :=
  total_firstMention _ hw.markers

theorem total_categoryOfNames (names : List String) :
    Total (conventions.categoryOfNames names) := by
  induction names with
  | nil => exact .ok trivial
  | cons name names ih =>
    unfold categoryOfNames
    refine (total_markerIn hw name).bind fun category _ => ?_
    split
    · exact .ok trivial
    · exact ih

variable {index : Index} (h : index.WellFormed)
include h

theorem total_categoryOfType (name : String) : Total (conventions.categoryOfType index name) := by
  unfold categoryOfType
  refine (total_markerIn hw _).bind fun category _ => ?_
  split
  · exact .ok trivial
  · split
    · exact .ok trivial
    · rename_i t ht
      exact (TypeRecord.total_kindText (h.wellTyped.of_type? ht)).bind fun _ _ => .ok trivial

variable {context : Context} (hc : context.WellTyped)
include hc

theorem total_frameworkCategory (segments : List String) :
    Total (conventions.frameworkCategory index segments context) := by
  unfold frameworkCategory
  split
  · exact .ok trivial
  · refine (h.wellTyped.total_typeTrail hc segments).bind fun trail _ => ?_
    split
    · refine (total_categoryOfType hw h _).bind fun byType _ => ?_
      cases byType with
      | some category => exact .ok trivial
      | none => exact total_categoryOfNames hw _
    · exact total_categoryOfNames hw _

end Conventions

/-! ## Calls -/

theorem Resolution.total_found {m : Method} (h : m.WellTyped) (tier : Tier) :
    Total (Resolution.found tier m) := by
  obtain ⟨parameters, hsignature⟩ := Method.exists_signature h
  rw [found, hsignature]
  exact .ok trivial

namespace Index.WellFormed

variable {index : Index} (h : index.WellFormed) {context : Context} (hc : context.WellTyped)
include h hc

theorem total_findIn (call : String) (segments : List String) (tier : Tier) :
    Total (index.findIn call segments context tier) := by
  cases tier with
  | chain => exact h.wellTyped.total_follow hc segments
  | bareName =>
    simp only [findIn]
    split
    · rename_i name
      obtain ⟨found, hfound, -⟩ := h.wellTyped.gives_lookupMember context.callerType name
      exact ⟨found, hfound, trivial⟩
    · exact .ok trivial
  | direct | className | nameAnywhere => exact .ok trivial

theorem gives_firstFound (call : String) (segments : List String) (tiers : List Tier) :
    Gives (index.firstFound call segments context tiers) fun found =>
      ∀ e ∈ found, e.2.WellTyped := by
  have htotal : Total (index.firstFound call segments context tiers) := by
    induction tiers with
    | nil => exact .ok trivial
    | cons tier tiers ih =>
      unfold firstFound
      obtain ⟨found, hfound, -⟩ := h.total_findIn hc call segments tier
      rw [hfound]
      cases found with
      | none => exact ih
      | some m => exact .ok trivial
  obtain ⟨found, hfound, -⟩ := htotal
  refine ⟨found, hfound, ?_⟩
  rintro ⟨tier, m⟩ rfl
  exact h.wellTyped_of_mem (mem_methodList_of_firstFound hfound)

end Index.WellFormed

namespace Conventions

variable {conventions : Conventions} (hw : conventions.WellTyped) {index : Index}
  (h : index.WellFormed) {context : Context} (hc : context.WellTyped)
include hw h hc

theorem total_resolveSegments (call : String) (segments : List String) :
    Total (conventions.resolveSegments index call segments context) := by
  unfold resolveSegments
  split
  · exact .ok trivial
  · obtain ⟨found, hfound, hmem⟩ := h.gives_firstFound hc call segments declaredTiers
    rw [hfound]
    cases found with
    | some e => exact Resolution.total_found (hmem e rfl) e.1
    | none =>
      obtain ⟨category, hcategory, -⟩ := total_frameworkCategory hw h hc segments
      simp only [hcategory]
      cases category with
      | some category => exact .ok trivial
      | none =>
        obtain ⟨last, hlast, hmem⟩ := h.gives_firstFound hc call segments [.nameAnywhere]
        simp only [hlast]
        cases last with
        | some e => exact Resolution.total_found (hmem e rfl) e.1
        | none => exact .ok trivial

/-- A call in a well-typed context has a resolution. -/
theorem total_resolve {raw : Datum} (hraw : raw.isOptionalText) :
    Total (conventions.resolve index raw context) := by
  have hcall : ∃ call, raw.callText = .ok call := by
    cases raw with
    | null => exact ⟨_, rfl⟩
    | text s =>
      simp only [Datum.callText]
      split <;> exact ⟨_, rfl⟩
    | bool | int | float | list | object => simp [Datum.isOptionalText] at hraw
  obtain ⟨call, hcall⟩ := hcall
  simp only [resolve, hcall]
  split
  · exact .ok trivial
  · obtain ⟨logging, hlogging, -⟩ := total_isLogging hw call
    simp only [hlogging]
    cases logging with
    | true => exact .ok trivial
    | false => exact total_resolveSegments hw h hc call _

end Conventions

end EntryFlow
