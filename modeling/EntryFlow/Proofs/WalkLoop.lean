import EntryFlow.Proofs.Expansion
import EntryFlow.Proofs.Inheritance
import Mathlib.Algebra.Ring.Nat

/-!
# The loop of a walk

The loop of a walk takes and puts frames, and the methods of a corpus may call each other in
circles. It ends because a method is put on the stack only when it is marked as visited. So the
stack holds different methods of the index, all of them visited, and is never longer than the index;
and each iteration visits a further method, or visits none and leaves fewer calls and frames.

## Main definitions

* `Walk.Loops`: the states that the loop of a walk comes to.
* `Walk.Stacked`: what the stack is like in these states.

## Main statements

* `Walk.Advances.stacked`: an iteration keeps the stack so.
* `Walk.Loops.stacked`: the stack is so in every iteration.
* `Walk.extend_terminates`: how deep the stack gets, and that the loop ends.
-/

namespace EntryFlow.Walk

section Definitions

variable (conventions : Conventions) (index : Index)

/-- The states of the loop of a walk from a key, each before an iteration or behind the last one. -/
inductive Loops (w : Walk) (key : Datum) : Walk → List Frame → Prop where
  | enter {v : Walk} {stack : List Frame} :
      w.enter index key = (v, .ok stack) → Loops w key v stack
  | advance {v u : Walk} {top : Frame} {rest frames : List Frame} :
      Loops w key v (top :: rest) → v.advance conventions index top rest = (u, .ok frames) →
      Loops w key u frames

/-- A stack of frames of different methods of the index, all of them visited. -/
structure Stacked (w : Walk) (stack : List Frame) : Prop where
  frames : ∀ frame ∈ stack, frame.WellTyped
  members : ∀ frame ∈ stack, frame.method ∈ index.methodList
  visited : ∀ frame ∈ stack, frame.method.baseFqn ∈ w.visited
  nodup : (stack.map (·.method.baseFqn)).Nodup

end Definitions

variable {conventions : Conventions} {index : Index}

/-- What is left on a stack are the calls of its frames and the frames themselves. -/
theorem pending_eq (stack : List Frame) :
    pending stack = (stack.map (·.calls.length)).sum + stack.length := by
  induction stack with
  | nil => rfl
  | cons frame stack ih =>
    rw [pending, ih, List.map_cons, List.sum_cons, List.length_cons]
    omega

/-! ## The stack -/

namespace Stacked

theorem nil (w : Walk) : Stacked index w [] := by
  constructor <;> simp

theorem tail {w : Walk} {top : Frame} {rest : List Frame} (h : Stacked index w (top :: rest)) :
    Stacked index w rest where
  frames := (List.forall_mem_cons.mp h.frames).2
  members := (List.forall_mem_cons.mp h.members).2
  visited := (List.forall_mem_cons.mp h.visited).2
  nodup := (List.nodup_cons.mp h.nodup).2

/-- The next call of the top frame is used up, and nothing is visited. -/
theorem next {w v : Walk} {m : Method} {call : Datum} {calls : List Datum} {context : Context}
    {rest : List Frame} (h : Stacked index w (⟨m, call :: calls, context⟩ :: rest))
    (hv : v.visited = w.visited) : Stacked index v (⟨m, calls, context⟩ :: rest) where
  frames := by
    obtain ⟨htop, hrest⟩ := List.forall_mem_cons.mp h.frames
    exact List.forall_mem_cons.mpr ⟨htop.tail, hrest⟩
  members := List.forall_mem_cons.mpr (List.forall_mem_cons.mp h.members)
  visited := by
    rw [hv]
    exact List.forall_mem_cons.mpr (List.forall_mem_cons.mp h.visited)
  nodup := h.nodup

/-- A method that is visited only now is on no frame of the stack. -/
theorem push {w v : Walk} {frame : Frame} {stack : List Frame} (h : Stacked index w stack)
    (hframe : frame.WellTyped) (hmember : frame.method ∈ index.methodList)
    (hnew : frame.method.baseFqn ∉ w.visited)
    (hv : ∀ base, base ∈ v.visited ↔ base = frame.method.baseFqn ∨ base ∈ w.visited) :
    Stacked index v (frame :: stack) where
  frames := List.forall_mem_cons.mpr ⟨hframe, h.frames⟩
  members := List.forall_mem_cons.mpr ⟨hmember, h.members⟩
  visited := List.forall_mem_cons.mpr
    ⟨(hv _).mpr (.inl rfl), fun f hf => (hv _).mpr (.inr (h.visited f hf))⟩
  nodup := by
    refine List.nodup_cons.mpr ⟨fun hmem => ?_, h.nodup⟩
    obtain ⟨f, hf, heq⟩ := List.mem_map.mp hmem
    have hvisited := h.visited f hf
    rw [show f.method.baseFqn = frame.method.baseFqn from heq] at hvisited
    exact hnew hvisited

/-- A stack of different methods of the index is not longer than the index. -/
theorem length_le {w : Walk} {stack : List Frame} (h : Stacked index w stack) :
    stack.length ≤ index.methods.length := by
  have hnodup : (stack.map (·.method)).Nodup := by
    apply List.Nodup.of_map Method.baseFqn
    rw [List.map_map]
    exact h.nodup
  have hsubset : stack.map (·.method) ⊆ index.methodList := by
    intro m hm
    obtain ⟨frame, hframe, rfl⟩ := List.mem_map.mp hm
    exact h.members frame hframe
  have hle := hnodup.length_le_of_subset hsubset
  rwa [List.length_map, Index.methodList, Table.values, List.length_map] at hle

end Stacked

section WellFormed

variable (h : index.WellFormed)
include h

/-- A walk begins with the frame of its root, which may have been visited before, or without any. -/
theorem Follows.stacked_enter {w v w' : Walk} {key : Datum} {stack : List Frame}
    (hfollows : Follows conventions index w key w') (henter : w.enter index key = (v, .ok stack)) :
    Stacked index v stack := by
  rcases hfollows.enter_cases h with
    ⟨u, hnone, -⟩ | ⟨root, u, frame, hroot, hfirst, hframe, hopened, -⟩
  · rw [hnone] at henter
    cases henter
    exact .nil v
  · rw [hfirst] at henter
    cases henter
    obtain ⟨frame', hframe', hwell⟩ := Frame.gives_ofMethod h (h.wellTyped_of_mem hroot)
    obtain rfl : frame' = frame := Except.ok.inj (hframe'.symm.trans hframe)
    have hvisited := (hopened root hroot).mpr (.inr rfl)
    have hmethod := Frame.method_eq hframe
    subst hmethod
    exact ⟨by simpa using hwell, by simpa using hroot, by simpa using hvisited, by simp⟩

theorem Advances.stacked {w v : Walk} {stack frames : List Frame}
    (hstep : Advances conventions index w stack v frames) (hs : Stacked index w stack) :
    Stacked index v frames := by
  cases hstep with
  | ended => exact hs.tail
  | ignored | unresolved | framework | suppressed => exact hs.next rfl
  | @entered m call calls context rest caller signature target tier inner hres _ hnew hinner =>
    have hmember := Conventions.mem_methodList_of_resolve hres
    obtain ⟨frame, hframe, hwell⟩ := Frame.gives_ofMethod h (h.wellTyped_of_mem hmember)
    obtain rfl : frame = inner := Except.ok.inj (hframe.symm.trans hinner)
    have hmethod := Frame.method_eq hinner
    subst hmethod
    refine (hs.next rfl).push hwell hmember hnew fun base => ?_
    rw [visited_push, mem_visited_visit]

theorem Loops.stacked {w v w' : Walk} {key : Datum} {stack : List Frame}
    (hfollows : Follows conventions index w key w') (hl : Loops conventions index w key v stack) :
    Stacked index v stack := by
  induction hl with
  | enter henter => exact hfollows.stacked_enter h henter
  | advance _ hadvance ih => exact (advances_iff.mpr hadvance).stacked h ih

end WellFormed

/-! ## The end of the loop -/

/-- The loop comes to the state in which the machine has emptied the stack. -/
theorem Loops.run {w v w' : Walk} {key : Datum} {stack : List Frame}
    (hl : Loops conventions index w key v stack)
    (hrun : v.run conventions index stack = (w', none)) : Loops conventions index w key w' [] := by
  induction v, stack using run.induct conventions index with
  | case1 v =>
    rw [run_nil] at hrun
    cases hrun
    exact hl
  | case2 v top rest u fault hadvance =>
    rw [run_cons_of_error hadvance] at hrun
    cases hrun
  | case3 v top rest u frames hadvance hlt ih =>
    rw [run_cons_of_ok hadvance] at hrun
    exact ih (hl.advance hadvance) hrun

theorem loops_of_extend {w w' : Walk} {key : Datum}
    (hextend : w.extend conventions index key = (w', none)) :
    Loops conventions index w key w' [] := by
  rw [extend_eq_enter] at hextend
  split at hextend
  · cases hextend
  · rename_i henter
    exact (Loops.enter henter).run hextend

/-- Over a well-typed corpus, however its methods call each other and its types extend each other,
the walk from any key ends, in any state that earlier walks left. In each iteration of its loop the
frames on the stack are of different methods, all of them visited, so they are no more than the
index has methods. The iteration has a result, and it lowers the number of methods that are not
visited, or keeps it and lowers the number of calls and frames that are left. The chains of parents
in which the iterations look up methods and fields end as well. -/
theorem extend_terminates {types : List TypeRecord} (htypes : Corpus.WellTyped types)
    (hindex : Index.build types = .ok index) (hconventions : conventions.WellTyped) (w : Walk)
    {key : Datum} (hkey : key.isOptionalText) :
    (∃ w', w.extend conventions index key = (w', none) ∧ Loops conventions index w key w' []) ∧
      (∀ v stack, Loops conventions index w key v stack →
        (stack.map (·.method.baseFqn)).Nodup ∧
        (∀ frame ∈ stack, frame.method.baseFqn ∈ v.visited) ∧
        stack.length ≤ index.methods.length ∧
        ∀ top rest, stack = top :: rest → ∃ u frames,
          v.advance conventions index top rest = (u, .ok frames) ∧
          Prod.Lex (· < ·) (· < ·)
            (u.unvisited index, (frames.map (·.calls.length)).sum + frames.length)
            (v.unvisited index, (stack.map (·.calls.length)).sum + stack.length)) ∧
      ∀ t, index.Ancestry [] t (index.lineage t).types := by
  have h := Index.wellFormed_of_build htypes hindex
  obtain ⟨w', hextend, hfollows⟩ := exists_follows hconventions h w hkey
  refine ⟨⟨w', hextend, loops_of_extend hextend⟩, fun v stack hl => ?_,
    h.wellTyped.ancestry_lineage⟩
  · have hs := hl.stacked h hfollows
    refine ⟨hs.nodup, hs.visited, hs.length_le, ?_⟩
    rintro top rest rfl
    obtain ⟨u, frames, hstep⟩ :=
      exists_advances hconventions h v (hs.frames top List.mem_cons_self) rest
    refine ⟨u, frames, hstep.advance_eq, ?_⟩
    rw [← pending_eq, ← pending_eq]
    exact measure_advance_lt hstep.advance_eq

/-- Two types that are parents of each other, with methods that call each other and themselves. -/
def entwined : List TypeRecord :=
  [{ Corpus.shop with parent := .text "Stock" }, { Corpus.stock with parent := .text "Shop" }]

theorem extend_terminates_entwined :
    (∃ w', ((start "entry").visit "app.Stock.take").extend .default (Index.ofTypes entwined)
          (.text "app.Shop.buy(Item)") = (w', none) ∧
        Loops .default (Index.ofTypes entwined) ((start "entry").visit "app.Stock.take")
          (.text "app.Shop.buy(Item)") w' []) ∧
      (∀ v stack,
        Loops .default (Index.ofTypes entwined) ((start "entry").visit "app.Stock.take")
          (.text "app.Shop.buy(Item)") v stack →
        (stack.map (·.method.baseFqn)).Nodup ∧
        (∀ frame ∈ stack, frame.method.baseFqn ∈ v.visited) ∧
        stack.length ≤ (Index.ofTypes entwined).methods.length ∧
        ∀ top rest, stack = top :: rest → ∃ u frames,
          v.advance .default (Index.ofTypes entwined) top rest = (u, .ok frames) ∧
          Prod.Lex (· < ·) (· < ·)
            (u.unvisited (Index.ofTypes entwined),
              (frames.map (·.calls.length)).sum + frames.length)
            (v.unvisited (Index.ofTypes entwined),
              (stack.map (·.calls.length)).sum + stack.length)) ∧
      ∀ t, (Index.ofTypes entwined).Ancestry [] t ((Index.ofTypes entwined).lineage t).types :=
  extend_terminates (show Corpus.WellTyped entwined by decide)
    (Index.build_eq_ofTypes (by decide)) (by decide) _ (by decide)

end EntryFlow.Walk
