import EntryFlow.Proofs.NormalizedCalls
import EntryFlow.Proofs.Totality

/-!
# Calls that are resolved to nothing

A call that nothing is found for does not show in any flow. Whether it is found is decided by little
of what resolution looks at. The direct tier looks for the text before the first parenthesis. All
other tiers find methods with the name of the last segment, so they find nothing where the last one
of them, which takes any such method, would not. What is left is the framework heuristic.

## Main statements

* `Index.firstFound_eq_none_iff`: when a sequence of tiers finds nothing.
* `Index.findIn_eq_none`: without a method of the called name only the direct tier finds one.
* `Conventions.resolve_eq_unresolved_iff`: the calls that are resolved to nothing.
-/

namespace EntryFlow

namespace Index

variable {index : Index} {call : String} {segments : List String} {context : Context}

/-- Tiers find nothing one after the other if each of them finds nothing. -/
theorem firstFound_eq_none_iff {tiers : List Tier} :
    index.firstFound call segments context tiers = .ok none ↔
      ∀ tier ∈ tiers, index.findIn call segments context tier = .ok none := by
  induction tiers with
  | nil => simp [firstFound]
  | cons tier tiers ih =>
    rw [List.forall_mem_cons, ← ih, firstFound]
    cases hfound : index.findIn call segments context tier with
    | error fault => simp
    | ok found => cases found <;> simp

/-- No method of the index has the name that is called. -/
def LacksCalled (index : Index) (segments : List String) : Prop :=
  ∀ name ∈ segments.getLast?, ∀ m ∈ index.methodList, m.name ≠ .text name

theorem findIn_direct_eq_none_iff :
    index.findIn call segments context .direct = .ok none ↔
      ∀ key ∈ Call.callee? call, key ∉ index.methods.keys := by
  simp only [findIn, Except.ok.injEq, Option.bind_eq_none_iff, method?, Table.find?_eq_none_iff]
  rfl

theorem findIn_nameAnywhere_eq_none_iff :
    index.findIn call segments context .nameAnywhere = .ok none ↔ index.LacksCalled segments := by
  simp only [findIn, Except.ok.injEq, Option.bind_eq_none_iff, methodNamed?, List.find?_eq_none,
    decide_eq_true_eq]
  rfl

/-- Where no method has the called name, the tiers behind the direct one find nothing. -/
theorem findIn_eq_none {types : List TypeRecord} (htypes : Corpus.WellTyped types)
    (hindex : build types = .ok index) (hnames : index.SimpleNames) (hc : context.WellTyped)
    (hdots : ∀ s ∈ segments, '.' ∉ s.toList) (hlacks : index.LacksCalled segments) {tier : Tier}
    (htier : tier ≠ .direct) : index.findIn call segments context tier = .ok none := by
  obtain ⟨found, hfound, -⟩ :=
    (wellFormed_of_build htypes hindex).total_findIn hc call segments tier
  cases found with
  | none => exact hfound
  | some m =>
    obtain ⟨name, hlast, hname⟩ := name_of_findIn hindex hnames hdots htier hfound
    exact absurd hname (hlacks name hlast m (mem_methodList_of_findIn hfound))

end Index

/-! ## Resolution -/

namespace Conventions

variable {conventions : Conventions} {types : List TypeRecord} {index : Index} {context : Context}

/-- A normalized call that is no logging call is resolved to nothing if the direct tier, the tier
that takes any method of the called name and the framework heuristic find nothing. -/
theorem resolveSegments_eq_unresolved_iff (htypes : Corpus.WellTyped types)
    (hindex : Index.build types = .ok index) (hnames : index.SimpleNames) (hc : context.WellTyped)
    {call : String} {segments : List String} (hdots : ∀ s ∈ segments, '.' ∉ s.toList) :
    conventions.resolveSegments index call segments context = .ok .unresolved ↔
      segments = [] ∨
        (∀ key ∈ Call.callee? call, key ∉ index.methods.keys) ∧ index.LacksCalled segments ∧
          conventions.frameworkCategory index segments context = .ok none := by
  unfold resolveSegments
  by_cases hsegments : segments = []
  · simp [hsegments]
  rw [if_neg (by simpa using hsegments), or_iff_right hsegments]
  constructor
  · intro h
    split at h
    · cases h
    · obtain ⟨_, -, hr⟩ := Resolution.exists_signature_of_found h
      cases hr
    · rename_i hdeclared
      have hdirect := Index.firstFound_eq_none_iff.mp hdeclared .direct (by simp [declaredTiers])
      split at h
      · cases h
      · cases h
      · rename_i hframework
        split at h
        · cases h
        · obtain ⟨_, -, hr⟩ := Resolution.exists_signature_of_found h
          cases hr
        · rename_i hlast
          have hlacks := Index.firstFound_eq_none_iff.mp hlast .nameAnywhere List.mem_cons_self
          exact ⟨Index.findIn_direct_eq_none_iff.mp hdirect,
            Index.findIn_nameAnywhere_eq_none_iff.mp hlacks, hframework⟩
  · rintro ⟨hdirect, hlacks, hframework⟩
    have hnone : ∀ tier, index.findIn call segments context tier = .ok none := by
      intro tier
      by_cases htier : tier = .direct
      · rw [htier, Index.findIn_direct_eq_none_iff]
        exact hdirect
      · exact Index.findIn_eq_none htypes hindex hnames hc hdots hlacks htier
    have hfirst : ∀ tiers, index.firstFound call segments context tiers = .ok none := fun tiers =>
      Index.firstFound_eq_none_iff.mpr fun tier _ => hnone tier
    rw [hfirst, hfirst, hframework]

/-- A call is resolved to nothing if it is blank, or if it is no logging call and either names
nothing, or no method stands under the text before its first parenthesis, none has the name of its
last segment, and the framework heuristic does not apply. -/
theorem resolve_eq_unresolved_iff (htypes : Corpus.WellTyped types)
    (hindex : Index.build types = .ok index) (hnames : index.SimpleNames) (hc : context.WellTyped)
    {raw : Datum} {call : String} (hcall : raw.callText = .ok call) :
    conventions.resolve index raw context = .ok .unresolved ↔
      (∀ c ∈ call.toList, Text.isBlank c = true) ∨
        conventions.isLogging raw = .ok false ∧
          (Call.segments call = [] ∨
            (∀ key ∈ Call.callee? call, key ∉ index.methods.keys) ∧
            index.LacksCalled (Call.segments call) ∧
            conventions.frameworkCategory index (Call.segments call) context = .ok none) := by
  obtain ⟨s, rfl⟩ := Datum.exists_of_callText hcall
  have hlogging : conventions.isLogging raw = conventions.isLogging (.text (Call.unqualified s)) := by
    rw [isLogging_text, Call.unqualified_unqualified, isLogging, hcall]
    rfl
  rw [resolve, hcall, hlogging, Call.forall_isBlank_unqualified_iff]
  simp only
  split
  · rename_i hempty
    simp [hempty]
  · rename_i hempty
    rw [or_iff_right hempty]
    cases conventions.isLogging (.text (Call.unqualified s)) with
    | error fault => simp
    | ok logging =>
      cases logging with
      | true => simp
      | false =>
        rw [resolveSegments_eq_unresolved_iff htypes hindex hnames hc
          fun s => Call.not_mem_dot_of_mem_segments]
        simp

/-- A call of a method that is declared nowhere. -/
theorem resolve_eq_unresolved_iff_gone :
    Conventions.default.resolve (.ofTypes Corpus.sample) (.text "stock.gone(item)")
        ⟨.text "app.Shop", [], [], [(.text "stock", .text "Stock")]⟩ = .ok .unresolved ↔
      (∀ c ∈ "stock.gone(item)".toList, Text.isBlank c = true) ∨
        Conventions.default.isLogging (.text "stock.gone(item)") = .ok false ∧
          (Call.segments "stock.gone(item)" = [] ∨
            (∀ key ∈ Call.callee? "stock.gone(item)",
              key ∉ (Index.ofTypes Corpus.sample).methods.keys) ∧
            (Index.ofTypes Corpus.sample).LacksCalled (Call.segments "stock.gone(item)") ∧
            Conventions.default.frameworkCategory (.ofTypes Corpus.sample)
              (Call.segments "stock.gone(item)")
              ⟨.text "app.Shop", [], [], [(.text "stock", .text "Stock")]⟩ = .ok none) := by
  have htypes : Corpus.WellTyped Corpus.sample := by decide
  exact resolve_eq_unresolved_iff htypes (Index.build_eq_ofTypes (by decide)) (by decide)
    (by constructor <;> simp [Datum.isText]) (by decide +kernel)

end Conventions

end EntryFlow
