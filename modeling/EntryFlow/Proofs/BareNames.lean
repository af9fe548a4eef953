import EntryFlow.Proofs.CallText
import EntryFlow.Proofs.NormalizedCalls

/-!
# Bare names

A call is looked up on the own type of its caller when it has one segment. A part of a call that is
blank is no segment. So that is the case for a bare name, but also for a call whose receiver leaves
nothing behind when its brackets are emptied, as in `((Stock) part).save(item)`, which is written
`().save`.

## Main definitions

* `Call.parts`: what stands between the dots outside all brackets.

## Main statements

* `Call.exists_part_of_segments_eq`: a single segment is the only part that is not blank.
* `Call.not_mem_dot_iff`: a call with a single segment has no dot if it has no blank part.
* `Conventions.exists_name_of_bareName`: which calls are looked up on the own type.
* `Conventions.exists_lost_receiver`: a call with a receiver among them.
-/

namespace EntryFlow

namespace Call

open Text

/-- What stands between the dots of a call that are outside all brackets. -/
def parts (call : String) : List (List Char) :=
  (bare call.toList).splitOn '.'

/-- A single segment is one of the parts, and the other parts are blank. -/
theorem exists_part_of_segments_eq {call name : String} (h : segments call = [name]) :
    ∃ left part right, parts call = left ++ part :: right ∧ trim part = name.toList ∧
      trim part ≠ [] ∧ ∀ other ∈ left ++ right, trim other = [] := by
  have hnames : ((parts call).map trim).filter (!·.isEmpty) = [name.toList] := by
    have hname := congrArg (List.map String.toList) h
    simpa [segments, parts, Function.comp_def] using hname
  obtain ⟨before, after, hsplit, hbefore, hpart, hafter⟩ := List.filter_eq_cons_iff.mp hnames
  obtain ⟨left, others, hparts, rfl, hothers⟩ := List.map_eq_append_iff.mp hsplit
  obtain ⟨part, right, rfl, htrim, rfl⟩ := List.map_eq_cons_iff.mp hothers
  refine ⟨left, part, right, hparts, htrim, by simpa [htrim] using hpart, fun other hother => ?_⟩
  rcases List.mem_append.mp hother with hleft | hright
  · simpa using hbefore (trim other) (List.mem_map_of_mem hleft)
  · simpa using List.filter_eq_nil_iff.mp hafter (trim other) (List.mem_map_of_mem hright)

theorem not_mem_dot_iff_length_splitOn {cs : List Char} :
    '.' ∉ cs ↔ (cs.splitOn '.').length = 1 := by
  constructor
  · intro hdot
    rw [List.splitOn_eq_singleton hdot]
    rfl
  · intro hlength hdot
    obtain ⟨front, back, rfl, hfront⟩ := List.eq_append_cons_of_mem hdot
    rw [List.splitOn_append_cons_self_of_not_mem hfront, List.length_cons] at hlength
    exact List.splitOn_ne_nil '.' back (List.length_eq_zero_iff.mp (by omega))

/-- Where a call has a single segment, a dot outside all brackets comes from a blank part. -/
theorem not_mem_dot_iff {call name : String} (h : segments call = [name]) :
    '.' ∉ bare call.toList ↔ ∀ part ∈ parts call, trim part ≠ [] := by
  obtain ⟨left, part, right, hparts, -, hpart, hothers⟩ := exists_part_of_segments_eq h
  rw [not_mem_dot_iff_length_splitOn, show (bare call.toList).splitOn '.' = parts call from rfl,
    hparts]
  constructor
  · intro hlength
    have hnone : left = [] ∧ right = [] := by
      simp only [List.length_append, List.length_cons] at hlength
      exact ⟨List.length_eq_zero_iff.mp (by omega), List.length_eq_zero_iff.mp (by omega)⟩
    rw [hnone.1, hnone.2]
    simpa using hpart
  · intro hall
    have hnone : left ++ right = [] := by
      refine List.eq_nil_iff_forall_not_mem.mpr fun other hother => ?_
      refine hall other ?_ (hothers other hother)
      rcases List.mem_append.mp hother with hleft | hright
      · exact List.mem_append_left _ hleft
      · exact List.mem_append_right _ (List.mem_cons_of_mem _ hright)
    rw [List.append_eq_nil_iff] at hnone
    rw [hnone.1, hnone.2]
    rfl

end Call

namespace Conventions

/-- A call that is looked up on the own type of its caller has a single segment, the name of what is
found. It has no dot outside all brackets, unless one of its parts there is blank. -/
theorem exists_name_of_bareName {conventions : Conventions} {index : Index} {raw : String}
    {context : Context} {target : Method} {signature : String}
    (h : conventions.resolve index (.text raw) context =
      .ok (.method target signature .bareName)) :
    ∃ name, Call.segments (Call.unqualified raw) = [name] ∧
      index.lookupMember context.callerType name = .ok (some target) ∧
      ('.' ∉ Call.bare (Call.unqualified raw).toList ↔
        ∀ part ∈ Call.parts (Call.unqualified raw), Text.trim part ≠ []) := by
  obtain ⟨call, tiers, found, m, hcall, -, hfirst, hfound⟩ := exists_found_of_resolve h
  obtain ⟨rfl, rfl, -⟩ := Resolution.of_found hfound
  rw [Datum.callText_text] at hcall
  cases hcall
  have hname := Index.findIn_of_firstFound hfirst
  simp only [Index.findIn] at hname
  split at hname
  · rename_i name hsegments
    exact ⟨name, hsegments, hname, Call.not_mem_dot_iff hsegments⟩
  · cases hname

/-- A method that calls itself on its own object. -/
theorem exists_name_of_bareName_self :
    Conventions.default.resolve (.ofTypes Corpus.sample) (.text "this.take(item)")
        ⟨.text "app.Stock", [], [], []⟩ =
      .ok (.method ((Method.calling "take" ["itemRepository.save(item)", "take(item)"]).ownedBy
        Corpus.stock) "app.Stock.take()" .bareName) ∧
    ∃ name, Call.segments (Call.unqualified "this.take(item)") = [name] ∧
      (Index.ofTypes Corpus.sample).lookupMember (.text "app.Stock") name =
        .ok (some ((Method.calling "take" ["itemRepository.save(item)", "take(item)"]).ownedBy
          Corpus.stock)) ∧
      ('.' ∉ Call.bare (Call.unqualified "this.take(item)").toList ↔
        ∀ part ∈ Call.parts (Call.unqualified "this.take(item)"), Text.trim part ≠ []) := by
  have hresolve : Conventions.default.resolve (.ofTypes Corpus.sample) (.text "this.take(item)")
        ⟨.text "app.Stock", [], [], []⟩ =
      .ok (.method ((Method.calling "take" ["itemRepository.save(item)", "take(item)"]).ownedBy
        Corpus.stock) "app.Stock.take()" .bareName) := by decide +kernel
  exact ⟨hresolve, exists_name_of_bareName hresolve⟩

/-- The receiver of `((Stock) part).save(item)` leaves only its parentheses in the text of the call.
So the call is looked up on the own type of its caller, although there is a dot before the name. -/
theorem exists_lost_receiver :
    ∃ t : Java.Tree, t.childText .receiver = "((Stock) part)" ∧ t.call? = some "().save" ∧
      '.' ∈ Call.bare (Call.unqualified "().save").toList ∧
      ∃ index target, Index.build [.offering "Stock" ["save"], .offering "Api" ["save"]] = .ok index ∧
        Conventions.default.resolve index (.text "().save") ⟨.text "Api", [], [], []⟩ =
          .ok (.method target "Api.save()" .bareName) :=
  ⟨Java.Tree.callNode "((Stock) part).save(item)" "((Stock) part)" "save", rfl, by decide +kernel,
    by decide +kernel, .ofTypes [.offering "Stock" ["save"], .offering "Api" ["save"]],
    (Method.calling "save" []).ownedBy (.offering "Api" ["save"]), rfl, by decide +kernel⟩

end Conventions

end EntryFlow
