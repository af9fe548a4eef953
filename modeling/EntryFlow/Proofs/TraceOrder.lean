import EntryFlow.Proofs.GraphInvariant

/-!
# Graphs of the same traces

A node is made of its signature alone, and every trace adds its nodes, its calls and its entry
points to those that are there. So a graph of traces tells which traces it was made of, but neither
in which order they came nor how often; and a trace whose nodes, calls and entry points are all
there adds nothing, not even to the order of what is there.

## Main definitions

* `Trace.signatures`: the signatures that a trace names.
* `CallGraph.Records`: a graph has all that a trace tells.
* `CallGraph.Grown`: the graphs that come about from a graph by additions and queries.

## Main statements

* `CallGraph.find?_nodes_ofTraces`, `CallGraph.mem_callers_ofTraces`: nodes and callers of the graph
  of some traces.
* `CallGraph.Records.addTrace_eq`: a recorded trace adds nothing.
* `CallGraph.ofTraces_insensitive`: the order and the number of traces do not matter.
-/

namespace EntryFlow

/-- The signatures that a trace names, in its steps and in its suppressed calls. -/
def Trace.signatures (t : Trace) : List String :=
  t.steps.flatMap Step.signatures ++ t.suppressed.flatMap fun call => [call.1, call.2]

namespace CallGraph

variable {g later : CallGraph} {t : Trace} {traces : List Trace}

/-! ## Nodes -/

theorem mem_nodes_addNode {n : CallNode} {signature : Datum} :
    signature ∈ (g.addNode n).nodes.keys ↔ signature ∈ g.nodes.keys ∨ signature = n.signature := by
  by_cases hold : n.signature ∈ g.nodes.keys
  · rw [addNode_of_mem hold]
    grind
  · rw [addNode_of_not_mem hold, Table.mem_keys_set, eq_comm]

theorem mem_nodes_addSignature_iff {name : String} {signature : Datum} :
    signature ∈ (g.addSignature name).nodes.keys ↔
      signature ∈ g.nodes.keys ∨ signature = .text name := by
  rw [addSignature, mem_nodes_addNode, CallNode.signature_ofSignature]

theorem mem_nodes_addStep (g : CallGraph) (s : Step) (signature : Datum) :
    signature ∈ (g.addStep s).nodes.keys ↔
      signature ∈ g.nodes.keys ∨ ∃ name ∈ s.signatures, signature = .text name := by
  obtain ⟨target, caller?, terminal⟩ := s
  cases caller? with
  | none => simp [addStep, Step.signatures, mem_nodes_addSignature_iff]
  | some caller => simp [addStep, Step.signatures, mem_nodes_addSignature_iff, or_assoc]

theorem mem_nodes_addSuppressed (g : CallGraph) (call : String × String) (signature : Datum) :
    signature ∈ (g.addSuppressed call).nodes.keys ↔
      signature ∈ g.nodes.keys ∨ ∃ name ∈ [call.1, call.2], signature = .text name := by
  simp [addSuppressed, mem_nodes_addSignature_iff, or_assoc]

theorem mem_nodes_addTrace (g : CallGraph) (t : Trace) (signature : Datum) :
    signature ∈ (g.addTrace t).nodes.keys ↔
      signature ∈ g.nodes.keys ∨ ∃ name ∈ t.signatures, signature = .text name := by
  have hsteps := iff_foldl (fun g : CallGraph => signature ∈ g.nodes.keys)
    (fun s => ∃ name ∈ Step.signatures s, signature = .text name)
    (fun g s => mem_nodes_addStep g s signature) t.steps g
  have hsuppressed := iff_foldl (fun g : CallGraph => signature ∈ g.nodes.keys)
    (fun call : String × String => ∃ name ∈ [call.1, call.2], signature = .text name)
    (fun g call => mem_nodes_addSuppressed g call signature) t.suppressed (t.steps.foldl addStep g)
  rw [addTrace, hsuppressed, hsteps, or_assoc]
  refine or_congr_right ?_
  simp only [Trace.signatures, List.mem_append, List.mem_flatMap]
  constructor
  · rintro (⟨s, hs, name, hname, heq⟩ | ⟨call, hcall, name, hname, heq⟩)
    · exact ⟨name, .inl ⟨s, hs, hname⟩, heq⟩
    · exact ⟨name, .inr ⟨call, hcall, hname⟩, heq⟩
  · rintro ⟨name, ⟨s, hs, hname⟩ | ⟨call, hcall, hname⟩, heq⟩
    · exact .inl ⟨s, hs, name, hname, heq⟩
    · exact .inr ⟨call, hcall, name, hname, heq⟩

/-- Every node is the one that is made of its signature. -/
def Derived (g : CallGraph) : Prop :=
  ∀ signature n, g.nodes.find? signature = some n →
    ∃ name, signature = .text name ∧ n = .ofSignature name

theorem derived_empty : empty.Derived := by
  intro signature n hn
  cases hn

theorem Derived.addSignature (hg : g.Derived) (name : String) : (g.addSignature name).Derived := by
  intro signature n hn
  by_cases hold : (CallNode.ofSignature name).signature ∈ g.nodes.keys
  · rw [CallGraph.addSignature, addNode_of_mem hold] at hn
    exact hg signature n hn
  · rw [CallGraph.addSignature, addNode_of_not_mem hold] at hn
    dsimp only at hn
    rw [Table.find?_set] at hn
    split at hn
    · rename_i hname
      rw [CallNode.signature_ofSignature] at hname
      exact ⟨name, hname.symm, (Option.some.inj hn).symm⟩
    · exact hg signature n hn

theorem Derived.addTrace (hg : g.Derived) (t : Trace) : (g.addTrace t).Derived := by
  refine addTrace_induction (P := Derived) ?_ ?_ ?_ hg t
  · intro g name hg
    exact hg.addSignature name
  · intro g caller callee loops hg _ signature n hn
    rw [nodes_addEdge] at hn
    exact hg signature n hn
  · intro g name hg signature n hn
    rw [nodes_addEntryPoint] at hn
    exact hg signature n hn

theorem derived_ofTraces (traces : List Trace) : (ofTraces traces).Derived :=
  List.foldlRecOn (motive := Derived) traces addTrace derived_empty fun _ hg t _ => hg.addTrace t

/-- The nodes of the graph of some traces are those of the signatures that the traces name. -/
theorem find?_nodes_ofTraces {signature : Datum} {n : CallNode} :
    (ofTraces traces).nodes.find? signature = some n ↔
      ∃ t ∈ traces, ∃ name ∈ t.signatures, signature = .text name ∧ n = .ofSignature name := by
  have hkeys := iff_foldl (fun g : CallGraph => signature ∈ g.nodes.keys)
    (fun t : Trace => ∃ name ∈ t.signatures, signature = .text name)
    (fun g t => mem_nodes_addTrace g t signature) traces empty
  have hmem : signature ∈ (ofTraces traces).nodes.keys ↔
      ∃ t ∈ traces, ∃ name ∈ t.signatures, signature = .text name := by
    rw [ofTraces, hkeys]
    simp [empty]
  constructor
  · intro hn
    obtain ⟨t, ht, name, hname, htext⟩ := hmem.mp (Table.mem_keys_iff.mpr ⟨n, hn⟩)
    obtain ⟨other, hother, hnode⟩ := derived_ofTraces traces _ n hn
    rw [htext] at hother
    exact ⟨t, ht, name, hname, htext, by rw [hnode, Datum.text.inj hother]⟩
  · rintro ⟨t, ht, name, hname, htext, hnode⟩
    obtain ⟨known, hn⟩ := Table.mem_keys_iff.mp (hmem.mpr ⟨t, ht, name, hname, htext⟩)
    obtain ⟨other, hother, hknown⟩ := derived_ofTraces traces _ known hn
    rw [htext] at hother
    rw [hn, hknown, hnode, Datum.text.inj hother]

/-- The callers in the graph of some traces are those of the calls that the traces tell of. -/
theorem mem_callers_ofTraces {a b : Datum} :
    a ∈ neighbours (ofTraces traces).callers b ↔
      ∃ t ∈ traces, ∃ call ∈ t.calls, Tells a b call := by
  rw [← (Built.ofTraces traces).consistent.mirrored,
    ← mem_edges_iff (nodup_callees_ofTraces traces), mem_edges_ofTraces]

/-! ## Recorded traces -/

/-- A graph has all that a trace tells: the nodes of its signatures, its entry points and its
calls. -/
structure Records (g : CallGraph) (t : Trace) : Prop where
  nodes : ∀ name ∈ t.signatures, .text name ∈ g.nodes.keys
  entryPoints : ∀ s ∈ t.steps, s.caller = none → .text s.target ∈ g.entryPoints
  calls : ∀ call ∈ t.calls, .text call.2 ∈ neighbours g.callees (.text call.1)

theorem records_addTrace (g : CallGraph) (t : Trace) : (g.addTrace t).Records t where
  nodes name hname := (mem_nodes_addTrace g t _).mpr (.inr ⟨name, hname, rfl⟩)
  entryPoints s hs hcaller := (mem_entryPoints_addTrace g t _).mpr (.inr ⟨s, hs, hcaller, rfl⟩)
  calls call hcall := (mem_neighbours_addTrace g t _ _).mpr (.inr ⟨call, hcall, rfl, rfl⟩)

theorem addSignature_of_mem {name : String} (hname : .text name ∈ g.nodes.keys) :
    g.addSignature name = g := by
  rw [addSignature, addNode_of_mem]
  rwa [CallNode.signature_ofSignature]

theorem addEdge_of_mem {caller callee : Datum} {loops : Bool}
    (hcallee : callee ∈ neighbours g.callees caller ∨ caller = callee ∧ loops = false) :
    (g.addEdge caller callee loops).1 = g := by
  unfold addEdge
  split
  · rfl
  · dsimp only
    split
    · rfl
    · grind

theorem addStep_of_mem {s : Step} (hnodes : ∀ name ∈ s.signatures, .text name ∈ g.nodes.keys)
    (hentry : s.caller = none → .text s.target ∈ g.entryPoints)
    (hcall : ∀ call, s.call? = some call → .text call.2 ∈ neighbours g.callees (.text call.1)) :
    g.addStep s = g := by
  obtain ⟨target, caller?, terminal⟩ := s
  have htarget : g.addSignature target = g :=
    addSignature_of_mem (hnodes target (by simp [Step.signatures]))
  cases caller? with
  | none => simp [addStep, htarget, addEntryPoint, hentry rfl]
  | some caller =>
    have hcaller : g.addSignature caller = g :=
      addSignature_of_mem (hnodes caller (by simp [Step.signatures]))
    simp only [addStep, htarget, hcaller]
    apply addEdge_of_mem
    by_cases hloop : caller = target
    · exact .inr ⟨by rw [hloop], rfl⟩
    · exact .inl (hcall (caller, target) (by simp [Step.call?, Step.edge?, hloop]))

theorem addSuppressed_of_mem {call : String × String}
    (hnodes : ∀ name ∈ [call.1, call.2], .text name ∈ g.nodes.keys)
    (hcall : .text call.2 ∈ neighbours g.callees (.text call.1)) : g.addSuppressed call = g := by
  have hcaller : g.addSignature call.1 = g := addSignature_of_mem (hnodes _ (by simp))
  have htarget : g.addSignature call.2 = g := addSignature_of_mem (hnodes _ (by simp))
  rw [addSuppressed, hcaller, htarget]
  exact addEdge_of_mem (.inl hcall)

/-- A trace that a graph has recorded adds nothing. -/
theorem Records.addTrace_eq (hg : g.Records t) : g.addTrace t = g := by
  have hsteps : t.steps.foldl addStep g = g := by
    refine List.foldlRecOn (motive := (· = g)) _ _ rfl ?_
    rintro _ rfl s hs
    apply addStep_of_mem
    · intro name hname
      exact hg.nodes name (List.mem_append_left _ (List.mem_flatMap_of_mem hs hname))
    · exact hg.entryPoints s hs
    · intro call hcall
      exact hg.calls call (List.mem_append_left _ (List.mem_filterMap.mpr ⟨s, hs, hcall⟩))
  rw [addTrace, hsteps]
  refine List.foldlRecOn (motive := (· = g)) _ _ rfl ?_
  rintro _ rfl call hcall
  apply addSuppressed_of_mem
  · intro name hname
    exact hg.nodes name (List.mem_append_right _ (List.mem_flatMap_of_mem hcall hname))
  · exact hg.calls call (List.mem_append_right _ hcall)

/-! ## Graphs that grow -/

/-- The graphs that come about from a graph by additions and by the queries that leave something
behind, in any order. -/
inductive Grown (g : CallGraph) : CallGraph → Prop where
  | start : Grown g g
  | addNode {h} (n : CallNode) : Grown g h → Grown g (h.addNode n)
  | addEdge {h} (caller callee : Datum) (loops : Bool) :
      Grown g h → Grown g (h.addEdge caller callee loops).1
  | addTrace {h} (t : Trace) : Grown g h → Grown g (h.addTrace t)
  | findPath {h} (a b : Datum) : Grown g h → Grown g (h.findPath a b).2
  | findCycles {h} (queries : CycleQueries Datum) : Grown g h → Grown g (h.findCycles queries).2
  | hasCycles {h} (queries : CycleQueries Datum) : Grown g h → Grown g (h.hasCycles queries).2
  | findReachable {h} (signature : Datum) (direction : Direction) (depth : Datum) :
      Grown g h → Grown g (h.findReachable signature direction depth).2

namespace Records

theorem addNode (hg : g.Records t) (n : CallNode) : (g.addNode n).Records t where
  nodes name hname := mem_nodes_addNode_of_mem (hg.nodes name hname) n
  entryPoints s hs hcaller := by
    rw [entryPoints_addNode]
    exact hg.entryPoints s hs hcaller
  calls call hcall := by
    rw [neighbours_callees_addNode]
    exact hg.calls call hcall

theorem addEdge (hg : g.Records t) (caller callee : Datum) (loops : Bool) :
    (g.addEdge caller callee loops).1.Records t where
  nodes name hname := by
    rw [nodes_addEdge]
    exact hg.nodes name hname
  entryPoints s hs hcaller := by
    rw [entryPoints_addEdge]
    exact hg.entryPoints s hs hcaller
  calls call hcall :=
    (mem_neighbours_addEdge g caller callee loops _ _).mpr (.inl (hg.calls call hcall))

theorem addTrace (hg : g.Records t) (other : Trace) : (g.addTrace other).Records t where
  nodes name hname := (mem_nodes_addTrace g other _).mpr (.inl (hg.nodes name hname))
  entryPoints s hs hcaller :=
    (mem_entryPoints_addTrace g other _).mpr (.inl (hg.entryPoints s hs hcaller))
  calls call hcall := (mem_neighbours_addTrace g other _ _).mpr (.inl (hg.calls call hcall))

theorem keepView (hg : g.Records t) : g.view.2.Records t := by
  unfold CallGraph.view
  split
  · exact hg
  · exact ⟨hg.nodes, hg.entryPoints, hg.calls⟩

/-- What is recorded stays recorded. -/
theorem grown (hg : g.Records t) (hgrown : Grown g later) : later.Records t := by
  induction hgrown with
  | start => exact hg
  | addNode n _ ih => exact ih.addNode n
  | addEdge caller callee loops _ ih => exact ih.addEdge caller callee loops
  | addTrace other _ ih => exact ih.addTrace other
  | findPath _ _ _ ih | findCycles _ _ ih | hasCycles _ _ ih => exact ih.keepView
  | findReachable _ _ _ _ ih =>
    rw [snd_findReachable]
    exact ih.keepView

end Records

theorem Grown.foldl_addTrace (hgrown : Grown g later) (traces : List Trace) :
    Grown g (traces.foldl CallGraph.addTrace later) :=
  List.foldlRecOn (motive := Grown g) traces CallGraph.addTrace hgrown fun _ hg t _ => hg.addTrace t

/-- The graph of some traces has the same nodes under the same signatures, the same edges, the same
callers of each signature and the same entry points as that of any other list with the same traces,
in whatever order and however often they stand there. And a trace that was added to a graph at some
time changes nothing when it is added again: nodes, callees, callers and entry points stay as they
are, orders included; so every trace of a list is one that its graph has already. -/
theorem ofTraces_insensitive :
    (∀ traces others : List Trace, (∀ t, t ∈ traces ↔ t ∈ others) →
      (∀ signature, (ofTraces traces).nodes.find? signature =
        (ofTraces others).nodes.find? signature) ∧
      (∀ a b, (a, b) ∈ (ofTraces traces).edges ↔ (a, b) ∈ (ofTraces others).edges) ∧
      (∀ a b, a ∈ neighbours (ofTraces traces).callers b ↔
        a ∈ neighbours (ofTraces others).callers b) ∧
      ∀ e, e ∈ (ofTraces traces).entryPoints ↔ e ∈ (ofTraces others).entryPoints) ∧
    (∀ (g : CallGraph) t later, Grown (g.addTrace t) later → later.addTrace t = later) ∧
    ∀ traces, ∀ t ∈ traces, (ofTraces traces).addTrace t = ofTraces traces := by
  have hagain : ∀ (g : CallGraph) t later,
      Grown (g.addTrace t) later → later.addTrace t = later := by
    intro g t later hlater
    exact ((records_addTrace g t).grown hlater).addTrace_eq
  refine ⟨fun traces others hsame => ⟨fun signature => ?_, fun a b => ?_, fun a b => ?_,
    fun e => ?_⟩, hagain, fun traces t ht => ?_⟩
  · apply Option.ext
    intro n
    simp only [find?_nodes_ofTraces, hsame]
  · simp only [mem_edges_ofTraces, hsame]
  · simp only [mem_callers_ofTraces, hsame]
  · simp only [mem_entryPoints_ofTraces, hsame]
  · obtain ⟨before, after, rfl⟩ := List.append_of_mem ht
    have hsplit : ofTraces (before ++ t :: after) =
        after.foldl addTrace ((ofTraces before).addTrace t) := by
      rw [ofTraces, List.foldl_append, List.foldl_cons, ofTraces]
    apply hagain (ofTraces before)
    rw [hsplit]
    exact Grown.start.foldl_addTrace after

/-- A trace with a call of a method to itself, which only the suppressed calls keep. -/
def selfCalling : Trace :=
  ⟨"buy", [⟨"buy", none, false⟩, ⟨"take", some "buy", false⟩, ⟨"take", some "take", false⟩],
    [("buy", "buy"), ("take", "buy")]⟩

/-- A trace that shares the callee. -/
def sharing : Trace :=
  ⟨"sell", [⟨"sell", none, false⟩, ⟨"take", some "sell", false⟩], []⟩

theorem ofTraces_insensitive_sharing :
    (∀ t, t ∈ [selfCalling, sharing] ↔ t ∈ [sharing, selfCalling, sharing]) ∧
      (ofTraces [selfCalling, sharing]).entryPoints ≠
        (ofTraces [sharing, selfCalling, sharing]).entryPoints ∧
      (∀ a b, (a, b) ∈ (ofTraces [selfCalling, sharing]).edges ↔
        (a, b) ∈ (ofTraces [sharing, selfCalling, sharing]).edges) ∧
      (ofTraces [selfCalling, sharing]).addTrace selfCalling = ofTraces [selfCalling, sharing] := by
  have hsame : ∀ t, t ∈ [selfCalling, sharing] ↔ t ∈ [sharing, selfCalling, sharing] := by
    intro t
    simp only [List.mem_cons, List.not_mem_nil, or_false]
    grind
  obtain ⟨hset, -, hagain⟩ := ofTraces_insensitive
  exact ⟨hsame, by decide +kernel, (hset _ _ hsame).2.1, hagain _ _ List.mem_cons_self⟩

end CallGraph

end EntryFlow
