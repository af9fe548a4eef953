import EntryFlow.Proofs.GraphInvariant

/-!
# The document of a call graph

The document of a graph lists its nodes, its callees and its entry points. Reading it adds the
nodes first and then the edges, so callers that are no nodes come behind the nodes, and the callers
of each callee follow from the edges. Nothing but order is lost. The callees have their final order
after one round trip and the callers after two.

## Main definitions

* `CallGraph.rebuilt`: the graph that is read back from the document of a graph.
* `CallGraph.Restores`: a graph has all that another one has, up to order.
* `CallGraph.InNodeOrder`: graphs whose callees are in their final order.

## Main statements

* `CallGraph.load_save`: what is read back.
* `CallGraph.load_save_twice`: what two round trips keep, and that no third one changes anything.
* `CallGraph.reordered_callers_mixed`: a graph in which the second round trip still changes the
  order of callers.
* `CallGraph.inNodeOrder_ofTraces`: a graph of traces is no such graph.
-/

namespace EntryFlow

theorem CallNode.load_save (n : CallNode) : load n.save = .ok n := rfl

theorem Datum.eq_text_display {d : Datum} (h : d.isText) : d = .text d.display := by
  obtain ⟨s, rfl⟩ := exists_eq_text h
  rfl

namespace CallGraph

/-! ## Texts as signatures -/

namespace TextSignatures

variable {g : CallGraph}

theorem empty : CallGraph.empty.TextSignatures := by
  constructor <;> simp [CallGraph.empty, neighbours]

theorem addNode (h : g.TextSignatures) {n : CallNode} (hn : n.signature.isText) :
    (g.addNode n).TextSignatures where
  nodes signature hsignature := by
    by_cases hold : n.signature ∈ g.nodes.keys
    · rw [addNode_of_mem hold] at hsignature
      exact h.nodes signature hsignature
    · rw [addNode_of_not_mem hold] at hsignature
      rcases Table.mem_keys_set.mp hsignature with hsignature | rfl
      · exact h.nodes signature hsignature
      · exact hn
  edges a b hb := h.edges a b (by rwa [neighbours_callees_addNode] at hb)

theorem addEdge (h : g.TextSignatures) (caller callee : String) (loops : Bool) :
    (g.addEdge (.text caller) (.text callee) loops).1.TextSignatures where
  nodes signature hsignature := h.nodes signature (by rwa [nodes_addEdge] at hsignature)
  edges a b hb := by
    rcases (mem_neighbours_addEdge _ _ _ _ _ _).mp hb with hb | ⟨-, rfl, rfl⟩
    · exact h.edges a b hb
    · exact ⟨rfl, rfl⟩

theorem addTrace (h : g.TextSignatures) (t : Trace) : (g.addTrace t).TextSignatures := by
  refine addTrace_induction ?_ (fun g _ _ _ hg _ => hg.addEdge _ _ _) ?_ h t
  · intro g signature hg
    refine hg.addNode ?_
    rw [CallNode.signature_ofSignature]
    rfl
  · intro g signature hg
    unfold addEntryPoint
    split
    · exact hg
    · exact ⟨hg.nodes, hg.edges⟩

theorem keepView (h : g.TextSignatures) : g.view.2.TextSignatures := by
  unfold view
  split
  · exact h
  · exact ⟨h.nodes, h.edges⟩

end TextSignatures

theorem Built.textSignatures {g : CallGraph} (h : Built g) : g.TextSignatures := by
  induction h with
  | empty | clear => exact .empty
  | addNode n _ hn ih => exact ih.addNode hn
  | addEdge caller callee loops _ ih => exact ih.addEdge caller callee loops
  | addTrace t _ ih => exact ih.addTrace t
  | ofTraces traces =>
    exact List.foldlRecOn traces CallGraph.addTrace .empty fun _ hg t _ => hg.addTrace t
  | load _ htexts => exact htexts
  | findPath _ _ _ ih | findCycles _ _ ih | hasCycles _ _ ih => exact ih.keepView
  | findReachable _ _ _ _ ih =>
    rw [snd_findReachable]
    exact ih.keepView

/-! ## Reading nodes and edges -/

/-- The graph of some nodes without edges. -/
def ofNodes (ns : List CallNode) : CallGraph :=
  ns.foldl addNode empty

/-- The graph with some edges more, loops included. -/
def addEdges (g : CallGraph) (es : List (Datum × Datum)) : CallGraph :=
  es.foldl (fun g e => (g.addEdge e.1 e.2 true).1) g

/-- The graph that is read back from the document of a graph. -/
def rebuilt (g : CallGraph) : CallGraph :=
  { (ofNodes g.nodes.values).addEdges g.edges with entryPoints := g.entryPoints }

/-- Every caller that a graph of texts lists is a text, one without callees too. -/
theorem TextSignatures.isText_caller {g : CallGraph} (h : g.TextSignatures) (hg : g.Consistent)
    {e : Datum × List Datum} (he : e ∈ g.callees) : e.1.isText := by
  have hfound : g.callees.find? e.1 = some e.2 :=
    (Table.find?_eq_some_iff hg.nodup_keys.2.1).mpr he
  cases hcallees : e.2 with
  | nil => exact h.nodes _ (hg.of_no_callees _ (hcallees ▸ hfound))
  | cons b callees => exact (h.edges e.1 b (by simp [neighbours, hfound, hcallees])).1

theorem loadEdges_list {g : CallGraph} {caller : String} {callees : List Datum}
    (h : ∀ b ∈ callees, b.isText) :
    g.loadEdges caller (.list callees) =
      .ok (g.addEdges (callees.map fun callee => (.text caller, callee))) := by
  rw [addEdges, List.foldl_map]
  refine foldlM_eq_ok (fun g b hb => ?_) g
  rw [if_pos (Datum.isKey_of_isText (h b hb))]

/-- What is read back from the document of a graph that comes about. -/
theorem load_save {g : CallGraph} (hg : Built g) : load g.save = .ok g.rebuilt := by
  have hc := hg.consistent
  have ht := hg.textSignatures
  have hnodes : (g.nodes.map fun e => (e.1.display, e.2.save)).foldlM
      (fun g field => do g.insertNode (← CallNode.load field.2)) empty =
        .ok (ofNodes g.nodes.values) := by
    rw [List.foldlM_map, ofNodes, Table.values, List.foldl_map]
    refine foldlM_eq_ok (fun h e he => ?_) empty
    have hsignature : e.2.signature = e.1 :=
      hc.named _ _ ((Table.find?_eq_some_iff hc.nodup_keys.1).mpr he)
    have hkey : e.2.signature.isKey :=
      Datum.isKey_of_isText (ht.nodes _ (hsignature ▸ List.mem_map_of_mem he))
    refine bind_eq_ok_iff.mpr ⟨e.2, CallNode.load_save e.2, ?_⟩
    rw [insertNode, if_pos hkey]
  have hedges : ∀ h : CallGraph, (g.callees.map fun e => (e.1.display, Datum.list e.2)).foldlM
      (fun g field => g.loadEdges field.1 field.2) h = .ok (h.addEdges g.edges) := by
    intro h
    rw [List.foldlM_map, addEdges, edges, List.foldl_flatMap]
    refine foldlM_eq_ok (fun h e he => ?_) h
    have hfound := (Table.find?_eq_some_iff hc.nodup_keys.2.1).mpr he
    have htexts : ∀ b ∈ e.2, b.isText := fun b hb =>
      (ht.edges e.1 b (by rwa [neighbours, hfound])).2
    rw [loadEdges_list htexts, ← Datum.eq_text_display (ht.isText_caller hc he)]
    rfl
  simp only [load, bind_eq_ok_iff]
  exact ⟨_, rfl, _, rfl, _, hnodes, _, rfl, _, rfl, _, hedges _, _, rfl, rfl⟩

/-! ## Tables of neighbours -/

/-- The table with an edge more. -/
def attach (table : Table Datum (List Datum)) (e : Datum × Datum) : Table Datum (List Datum) :=
  table.set e.1 (neighbours table e.1 ++ [e.2])

theorem neighbours_foldl_attach (es : List (Datum × Datum)) (table : Table Datum (List Datum))
    (a : Datum) :
    neighbours (es.foldl attach table) a =
      neighbours table a ++ (es.filter (·.1 = a)).map Prod.snd := by
  induction es generalizing table with
  | nil => simp
  | cons e es ih =>
    rw [List.foldl_cons, ih, attach, neighbours_set]
    by_cases ha : e.1 = a
    · simp [ha]
    · simp [ha]

/-- The edges that a table of neighbours lists. -/
def edgesOf (table : Table Datum (List Datum)) : List (Datum × Datum) :=
  table.flatMap fun e => e.2.map fun b => (e.1, b)

theorem edgesOf_cons (e : Datum × List Datum) (table : Table Datum (List Datum)) :
    edgesOf (e :: table) = (e.2.map fun b => (e.1, b)) ++ edgesOf table := rfl

theorem neighbours_cons (e : Datum × List Datum) (table : Table Datum (List Datum)) (a : Datum) :
    neighbours (e :: table) a = if e.1 = a then e.2 else neighbours table a := by
  rw [neighbours, Table.find?_cons]
  split <;> rfl

theorem neighbours_of_not_mem {table : Table Datum (List Datum)} {a : Datum}
    (h : a ∉ table.keys) : neighbours table a = [] := by
  rw [neighbours, Table.find?_eq_none_iff.mpr h]
  rfl

theorem filter_edgesOf {table : Table Datum (List Datum)} (h : table.keys.Nodup) (a : Datum) :
    ((edgesOf table).filter (·.1 = a)).map Prod.snd = neighbours table a := by
  induction table with
  | nil => rfl
  | cons e table ih =>
    obtain ⟨hnew, hrest⟩ := List.nodup_cons.mp h
    rw [edgesOf_cons, List.filter_append, List.map_append, ih hrest, neighbours_cons]
    by_cases ha : e.1 = a
    · subst ha
      simp [neighbours_of_not_mem hnew, List.filter_map, Function.comp_def]
    · simp [ha, List.filter_map, Function.comp_def]

theorem nodup_edgesOf {table : Table Datum (List Datum)} (h : table.keys.Nodup)
    (hlists : ∀ a, (neighbours table a).Nodup) : (edgesOf table).Nodup := by
  refine List.nodup_flatMap.mpr ⟨fun e he => ?_, ?_⟩
  · have hlist := hlists e.1
    rw [neighbours, (Table.find?_eq_some_iff h).mpr he] at hlist
    exact hlist.map fun b c hbc => (Prod.mk.inj hbc).2
  · refine (List.pairwise_map.mp h).imp fun {e f} hne => ?_
    intro edge he hf
    obtain ⟨b, -, rfl⟩ := List.mem_map.mp he
    obtain ⟨c, -, hc⟩ := List.mem_map.mp hf
    exact hne (Prod.mk.inj hc).1.symm

/-- Attaching edges with one start to a table enters it as a key, unless there are no edges. -/
theorem keys_foldl_attach_map (a : Datum) (bs : List Datum) (table : Table Datum (List Datum)) :
    ((bs.map fun b => (a, b)).foldl attach table).keys =
      if bs = [] ∨ a ∈ table.keys then table.keys else table.keys ++ [a] := by
  induction bs generalizing table with
  | nil => simp
  | cons b bs ih =>
    rw [List.map_cons, List.foldl_cons, ih, attach, Table.keys_set]
    by_cases ha : a ∈ table.keys <;> simp [ha]

/-- The keys of a table to which the edges of another one are attached: new ones come to its end. -/
theorem keys_foldl_attach {table : Table Datum (List Datum)} (h : table.keys.Nodup)
    {start : Table Datum (List Datum)} (hempty : ∀ e ∈ table, e.2 = [] → e.1 ∈ start.keys) :
    ((edgesOf table).foldl attach start).keys =
      start.keys ++ table.keys.filter (· ∉ start.keys) := by
  induction table generalizing start with
  | nil => simp [edgesOf]
  | cons e table ih =>
    obtain ⟨a, bs⟩ := e
    obtain ⟨hnew, hrest⟩ := List.nodup_cons.mp h
    obtain ⟨hfirst, hempty⟩ := List.forall_mem_cons.mp hempty
    have hkeys := keys_foldl_attach_map a bs start
    by_cases ha : a ∈ start.keys
    · rw [if_pos (.inr ha)] at hkeys
      rw [edgesOf_cons, List.foldl_append, ih hrest (by rwa [hkeys]), hkeys]
      simp [ha]
    · rw [if_neg (not_or.mpr ⟨fun hbs => ha (hfirst hbs), ha⟩)] at hkeys
      have hlater : ∀ e ∈ table, e.2 = [] → e.1 ∈ start.keys ++ [a] := fun e he hbs =>
        List.mem_append_left _ (hempty e he hbs)
      have hrest' : (Table.keys table).filter (· ∉ start.keys ++ [a]) =
          (Table.keys table).filter (· ∉ start.keys) := by
        refine List.filter_congr fun key hkey => ?_
        have hne : key ≠ a := fun h => hnew (h ▸ hkey)
        simp [hne]
      rw [edgesOf_cons, List.foldl_append, ih hrest (by rwa [hkeys]), hkeys, hrest']
      simp [ha]

/-! ## What is read back -/

/-- Nodes with different signatures stand in the order in which they are added. -/
theorem ofNodes_eq {ns : List CallNode} (h : (ns.map (·.signature)).Nodup) :
    ofNodes ns =
      { nodes := ns.map fun n => (n.signature, n)
        callees := ns.map fun n => (n.signature, [])
        callers := ns.map fun n => (n.signature, [])
        entryPoints := []
        view? := none } := by
  induction ns using List.reverseRecOn with
  | nil => rfl
  | append_singleton ns n ih =>
    rw [List.map_append, List.nodup_append] at h
    obtain ⟨hns, -, hnew⟩ := h
    have hnew : n.signature ∉ ns.map (·.signature) := fun hmem =>
      hnew _ hmem _ (List.mem_singleton.mpr rfl) rfl
    have hnodes : n.signature ∉ Table.keys (ns.map fun n => (n.signature, n)) := by
      rwa [Table.keys, List.map_map]
    have hlists : n.signature ∉ Table.keys (ns.map fun n => (n.signature, ([] : List Datum))) := by
      rwa [Table.keys, List.map_map]
    rw [ofNodes, List.foldl_append, ← ofNodes, ih hns]
    refine (addNode_of_not_mem hnodes).trans ?_
    dsimp only
    rw [Table.set_of_not_mem hnodes, Table.setNew_of_not_mem hlists]
    simp only [List.map_append, List.map_cons, List.map_nil]

/-- New edges are attached to the callees and, turned round, to the callers. -/
theorem addEdges_eq {es : List (Datum × Datum)} (hes : es.Nodup) {g : CallGraph}
    (hg : g.Consistent) (hview : g.view? = none)
    (hnew : ∀ e ∈ es, e.2 ∉ neighbours g.callees e.1) :
    g.addEdges es =
      { g with
        callees := es.foldl attach g.callees
        callers := (es.map Prod.swap).foldl attach g.callers } := by
  induction es generalizing g with
  | nil => rfl
  | cons e es ih =>
    obtain ⟨he, hes⟩ := List.nodup_cons.mp hes
    obtain ⟨hfirst, hnew⟩ := List.forall_mem_cons.mp hnew
    have hadded : (g.addEdge e.1 e.2 true).1 =
        { g with callees := attach g.callees e, callers := attach g.callers e.swap } := by
      rw [addEdge_of_new hg hfirst (.inr rfl), ← hview]
      rfl
    rw [addEdges, List.foldl_cons, ← addEdges, ih hes (hg.addEdge e.1 e.2 true), hadded]
    · rfl
    · rw [hadded]
      exact hview
    · intro f hf
      rw [hadded]
      dsimp only [attach]
      rw [neighbours_set]
      split
      · rename_i hcaller
        rw [List.mem_append, List.mem_singleton, not_or, hcaller]
        exact ⟨hnew f hf, fun hcallee => he (Prod.ext hcaller hcallee.symm ▸ hf)⟩
      · exact hnew f hf

namespace Consistent

variable {g : CallGraph}

theorem nodes_eq (h : g.Consistent) : g.nodes.values.map (fun n => (n.signature, n)) = g.nodes := by
  rw [Table.values, List.map_map]
  refine (List.map_congr_left fun e he => ?_).trans g.nodes.map_id
  have hsignature := h.named e.1 e.2 ((Table.find?_eq_some_iff h.nodup_keys.1).mpr he)
  exact Prod.ext hsignature rfl

theorem map_signature (h : g.Consistent) :
    g.nodes.values.map (·.signature) = g.nodes.keys := by
  conv => rhs; rw [← h.nodes_eq]
  rw [Table.keys, List.map_map]
  rfl

end Consistent

/-- Where exactly the nodes may have no neighbours, the keys are the nodes and what has some. -/
theorem mem_keys_iff_of_listed {table : Table Datum (List Datum)} {nodes : List Datum}
    (hlisted : ∀ a ∈ nodes, a ∈ table.keys) (hempty : ∀ a, table.find? a = some [] → a ∈ nodes)
    {a : Datum} : a ∈ table.keys ↔ a ∈ nodes ∨ neighbours table a ≠ [] := by
  constructor
  · intro ha
    obtain ⟨bs, hbs⟩ := Table.mem_keys_iff.mp ha
    cases bs with
    | nil => exact .inl (hempty a hbs)
    | cons b bs => exact .inr (by simp [neighbours, hbs])
  · rintro (ha | ha)
    · exact hlisted a ha
    · by_contra hnot
      exact ha (neighbours_of_not_mem hnot)

/-- Two tables with the same keys are related key by key as their neighbours are. -/
theorem rel_find? {r : List Datum → List Datum → Prop} {table other : Table Datum (List Datum)}
    {a : Datum} (hkeys : a ∈ table.keys ↔ a ∈ other.keys)
    (h : r (neighbours table a) (neighbours other a)) :
    Option.Rel r (table.find? a) (other.find? a) := by
  by_cases ha : a ∈ table.keys
  · obtain ⟨bs, hbs⟩ := Table.mem_keys_iff.mp ha
    obtain ⟨cs, hcs⟩ := Table.mem_keys_iff.mp (hkeys.mp ha)
    rw [neighbours, neighbours, hbs, hcs] at h
    rw [hbs, hcs]
    exact .some h
  · rw [Table.find?_eq_none_iff.mpr ha, Table.find?_eq_none_iff.mpr (mt hkeys.mpr ha)]
    exact .none

theorem neighbours_map_nil (keys : List Datum) (a : Datum) :
    neighbours (keys.map fun key => (key, [])) a = [] := by
  induction keys with
  | nil => rfl
  | cons key keys ih =>
    rw [List.map_cons, neighbours_cons, ih, ite_self]

/-- What is read back from a consistent graph, table by table. -/
theorem rebuilt_eq {g : CallGraph} (h : g.Consistent) :
    g.rebuilt =
      { nodes := g.nodes
        callees := g.edges.foldl attach (g.nodes.keys.map fun signature => (signature, []))
        callers := (g.edges.map Prod.swap).foldl attach
          (g.nodes.keys.map fun signature => (signature, []))
        entryPoints := g.entryPoints
        view? := none } := by
  have hsignatures : (g.nodes.values.map (·.signature)).Nodup := by
    rw [h.map_signature]
    exact h.nodup_keys.1
  have hnodes : ofNodes g.nodes.values =
      { nodes := g.nodes
        callees := g.nodes.keys.map fun signature => (signature, [])
        callers := g.nodes.keys.map fun signature => (signature, [])
        entryPoints := []
        view? := none } := by
    rw [ofNodes_eq hsignatures, h.nodes_eq, ← h.map_signature]
    simp only [List.map_map, Function.comp_def]
  have hconsistent : (ofNodes g.nodes.values).Consistent :=
    List.foldlRecOn _ _ .empty fun _ hg n _ => hg.addNode n
  have hedges : g.edges.Nodup := nodup_edgesOf h.nodup_keys.2.1 h.nodup_callees
  have hnew : ∀ e ∈ g.edges, e.2 ∉ neighbours (ofNodes g.nodes.values).callees e.1 := by
    intro e _
    rw [hnodes, neighbours_map_nil]
    exact List.not_mem_nil
  rw [rebuilt, addEdges_eq hedges hconsistent (by rw [hnodes]) hnew, hnodes]

theorem neighbours_callees_rebuilt {g : CallGraph} (h : g.Consistent) (a : Datum) :
    neighbours g.rebuilt.callees a = neighbours g.callees a := by
  rw [rebuilt_eq h]
  dsimp only
  rw [neighbours_foldl_attach, neighbours_map_nil, List.nil_append]
  exact filter_edgesOf h.nodup_keys.2.1 a

/-- The callees come in the order of the nodes, and behind them the callers that are none. -/
theorem keys_callees_rebuilt {g : CallGraph} (h : g.Consistent) :
    g.rebuilt.callees.keys = g.nodes.keys ++ g.callees.keys.filter (· ∉ g.nodes.keys) := by
  have hkeys : Table.keys (g.nodes.keys.map fun signature => (signature, ([] : List Datum))) =
      g.nodes.keys := by
    rw [Table.keys, List.map_map]
    exact List.map_id _
  have hempty : ∀ e ∈ g.callees, e.2 = [] → e.1 ∈ g.nodes.keys := by
    intro e he hnone
    exact h.of_no_callees _ (hnone ▸ (Table.find?_eq_some_iff h.nodup_keys.2.1).mpr he)
  rw [rebuilt_eq h]
  exact (keys_foldl_attach h.nodup_keys.2.1 (by rwa [hkeys])).trans (by rw [hkeys])

/-! ## Round trips -/

/-- The callees are in the order that reading a document gives them. -/
def InNodeOrder (g : CallGraph) : Prop :=
  g.callees.keys = g.nodes.keys ++ g.callees.keys.filter (· ∉ g.nodes.keys)

/-- The graph `h` has what `g` has. The nodes, with all that they tell, and the entry points come in
the same order, each caller has the same callees in the same order, and each callee has the same
callers. -/
structure Restores (g h : CallGraph) : Prop where
  nodes : h.nodes = g.nodes
  callees : h.callees.Perm g.callees
  callers : ∀ b, Option.Rel List.Perm (h.callers.find? b) (g.callers.find? b)
  entryPoints : h.entryPoints = g.entryPoints

/-- Two documents of graphs are the same, where the order in which callers come does not count. -/
def SameDocument (d e : Datum) : Prop :=
  ∃ nodes edges edges' entries,
    d = .object [("nodes", nodes), ("edges", .object edges), ("entry_points", entries)] ∧
    e = .object [("nodes", nodes), ("edges", .object edges'), ("entry_points", entries)] ∧
    edges.Perm edges'

theorem Restores.sameDocument {g h : CallGraph} (hr : Restores g h) :
    SameDocument g.save h.save := by
  refine ⟨_, _, _, _, rfl, ?_, (hr.callees.map _).symm⟩
  rw [save, hr.nodes, hr.entryPoints]

theorem Built.rebuilt {g : CallGraph} (hg : Built g) : Built g.rebuilt := by
  have hc := hg.consistent
  refine .load (load_save hg) ⟨?_, ?_⟩
  · rw [rebuilt_eq hc]
    exact hg.textSignatures.nodes
  · intro a b hb
    rw [neighbours_callees_rebuilt hc] at hb
    exact hg.textSignatures.edges a b hb

theorem find?_callees_rebuilt {g : CallGraph} (hg : Built g) (a : Datum) :
    g.rebuilt.callees.find? a = g.callees.find? a := by
  have hc := hg.consistent
  have hr := hg.rebuilt.consistent
  have hnodes : g.rebuilt.nodes = g.nodes := by rw [rebuilt_eq hc]
  have hneighbours := neighbours_callees_rebuilt hc a
  have hkeys : a ∈ g.rebuilt.callees.keys ↔ a ∈ g.callees.keys := by
    rw [mem_keys_iff_of_listed (fun b hb => (hr.listed b hb).1) hr.of_no_callees,
      mem_keys_iff_of_listed (fun b hb => (hc.listed b hb).1) hc.of_no_callees, hnodes, hneighbours]
  have hrel := rel_find? hkeys hneighbours
  generalize g.rebuilt.callees.find? a = bs, g.callees.find? a = cs at hrel
  cases hrel with
  | some h => rw [h]
  | none => rfl

theorem perm_callers_rebuilt {g : CallGraph} (hg : Built g) (b : Datum) :
    (neighbours g.rebuilt.callers b).Perm (neighbours g.callers b) := by
  have hc := hg.consistent
  have hr := hg.rebuilt.consistent
  refine (List.perm_ext_iff_of_nodup (hr.nodup_callers b) (hc.nodup_callers b)).mpr fun a => ?_
  rw [← hr.mirrored, ← hc.mirrored, neighbours_callees_rebuilt hc]

/-- Reading back the document of a graph that comes about gives all that the graph has. -/
theorem restores_rebuilt {g : CallGraph} (hg : Built g) : Restores g g.rebuilt := by
  have hc := hg.consistent
  have hr := hg.rebuilt.consistent
  have hnodes : g.rebuilt.nodes = g.nodes := by rw [rebuilt_eq hc]
  have hperm := perm_callers_rebuilt hg
  constructor
  case nodes => exact hnodes
  case callees =>
    exact Table.perm_of_find?_eq hr.nodup_keys.2.1 hc.nodup_keys.2.1 (find?_callees_rebuilt hg)
  case callers =>
    intro b
    refine rel_find? ?_ (hperm b)
    have hnone : neighbours g.rebuilt.callers b = [] ↔ neighbours g.callers b = [] := by
      constructor
      · intro h
        exact List.nil_perm.mp (h ▸ hperm b)
      · intro h
        exact List.perm_nil.mp (h ▸ hperm b)
    rw [mem_keys_iff_of_listed (fun b hb => (hr.listed b hb).2) hr.of_no_callers,
      mem_keys_iff_of_listed (fun b hb => (hc.listed b hb).2) hc.of_no_callers, hnodes, Ne, Ne,
      hnone]
  case entryPoints => rw [rebuilt_eq hc]

theorem inNodeOrder_rebuilt {g : CallGraph} (hg : g.Consistent) : g.rebuilt.InNodeOrder := by
  rw [InNodeOrder, keys_callees_rebuilt hg, rebuilt_eq hg]
  dsimp only
  rw [List.filter_append]
  have hnone : g.nodes.keys.filter (· ∉ g.nodes.keys) = [] := by simp
  rw [hnone, List.nil_append, List.filter_filter]
  simp only [Bool.and_self]

/-- A graph with its callees in that order has the same callees in the same order when it is read
back. -/
theorem InNodeOrder.callees_rebuilt {g : CallGraph} (h : g.InNodeOrder) (hg : Built g) :
    g.rebuilt.callees = g.callees :=
  Table.eq_of_find?_eq ((keys_callees_rebuilt hg.consistent).trans h.symm)
    hg.rebuilt.consistent.nodup_keys.2.1 (find?_callees_rebuilt hg)

/-- The document of a graph tells its nodes, its callees and its entry points. -/
theorem save_congr {g h : CallGraph} (hnodes : h.nodes = g.nodes) (hcallees : h.callees = g.callees)
    (hentries : h.entryPoints = g.entryPoints) : h.save = g.save := by
  rw [save, hnodes, hcallees, hentries]
  rfl

attribute [ext] CallGraph

/-- A round trip restores a graph, and its document is the same. A second one changes nothing but
the order in which callers come, and not even that where the callees came in the order of the nodes
from the start. No third one changes anything. -/
theorem load_save_twice {g : CallGraph} (hg : Built g) :
    ∃ h k, load g.save = .ok h ∧ Restores g h ∧ SameDocument g.save h.save ∧
      load h.save = .ok k ∧ Restores h k ∧ k = { h with callers := k.callers } ∧
      (g.InNodeOrder → h.callees = g.callees ∧ k = h) ∧
      load k.save = .ok k := by
  have hh := hg.rebuilt
  have hcallees : g.rebuilt.rebuilt.callees = g.rebuilt.callees :=
    (inNodeOrder_rebuilt hg.consistent).callees_rebuilt hh
  have hrestores := restores_rebuilt hg
  have hagain := restores_rebuilt hh
  have hsave : g.rebuilt.rebuilt.save = g.rebuilt.save :=
    save_congr hagain.nodes hcallees hagain.entryPoints
  refine ⟨g.rebuilt, g.rebuilt.rebuilt, load_save hg, hrestores, hrestores.sameDocument,
    load_save hh, hagain, ?_, ?_, ?_⟩
  · have hview : g.rebuilt.view? = none := by rw [rebuilt_eq hg.consistent]
    have hview' : g.rebuilt.rebuilt.view? = none := by rw [rebuilt_eq hh.consistent]
    exact CallGraph.ext hagain.nodes hcallees rfl hagain.entryPoints (hview'.trans hview.symm)
  · intro horder
    have hfirst := horder.callees_rebuilt hg
    have hsame : g.rebuilt.save = g.save :=
      save_congr hrestores.nodes hfirst hrestores.entryPoints
    have hload := load_save hh
    rw [hsame, load_save hg] at hload
    exact ⟨hfirst, (Except.ok.inj hload).symm⟩
  · rw [hsave]
    exact load_save hh

/-- A graph with a caller that is no node, and a node that came later. -/
def mixed : CallGraph :=
  (((empty.addEdge (.text "load") (.text "log") false).1.addNode (.ofSignature "save")).addEdge
    (.text "save") (.text "log") false).1

theorem built_mixed : Built mixed :=
  .addEdge "save" "log" false (.addNode _ (.addEdge "load" "log" false .empty) rfl)

theorem load_save_twice_mixed :
    ∃ h k, load mixed.save = .ok h ∧ Restores mixed h ∧ SameDocument mixed.save h.save ∧
      load h.save = .ok k ∧ Restores h k ∧ k = { h with callers := k.callers } ∧
      (mixed.InNodeOrder → h.callees = mixed.callees ∧ k = h) ∧
      load k.save = .ok k :=
  load_save_twice built_mixed

/-- The second round trip can change the order in which callers come. -/
theorem reordered_callers_mixed :
    Built mixed ∧ ∃ h k, load mixed.save = .ok h ∧ load h.save = .ok k ∧ k ≠ h ∧
      neighbours h.callers (.text "log") = [.text "load", .text "save"] ∧
      neighbours k.callers (.text "log") = [.text "save", .text "load"] := by
  refine ⟨built_mixed, mixed.rebuilt, mixed.rebuilt.rebuilt, load_save built_mixed,
    load_save built_mixed.rebuilt, ?_, ?_, ?_⟩
  all_goals decide

/-! ## Graphs of traces -/

theorem keys_callees_addNode {g : CallGraph} (h : g.callees.keys = g.nodes.keys) (n : CallNode) :
    (g.addNode n).callees.keys = (g.addNode n).nodes.keys := by
  by_cases hold : n.signature ∈ g.nodes.keys
  · rwa [addNode_of_mem hold]
  · rw [addNode_of_not_mem hold]
    dsimp only
    rw [Table.keys_setNew, Table.keys_set, h]

theorem keys_callees_addEdge {g : CallGraph} (h : g.callees.keys = g.nodes.keys)
    {caller : Datum} (hcaller : caller ∈ g.nodes.keys) (callee : Datum) (loops : Bool) :
    (g.addEdge caller callee loops).1.callees.keys =
      (g.addEdge caller callee loops).1.nodes.keys := by
  rw [nodes_addEdge, ← h]
  unfold addEdge
  split
  · rfl
  · dsimp only
    split
    · rfl
    · rw [Table.keys_set, if_pos (h ▸ hcaller)]

/-- A trace adds the caller as a node before it adds a call. -/
theorem keys_callees_addTrace {g : CallGraph} (h : g.callees.keys = g.nodes.keys) (t : Trace) :
    (g.addTrace t).callees.keys = (g.addTrace t).nodes.keys := by
  refine addTrace_induction (P := fun g : CallGraph => g.callees.keys = g.nodes.keys) ?_ ?_ ?_ h t
  · intro g signature hg
    exact keys_callees_addNode hg _
  · intro g caller callee loops hg hcaller
    exact keys_callees_addEdge hg hcaller _ _
  · intro g signature hg
    rwa [callees_addEntryPoint, nodes_addEntryPoint]

/-- The graph of some traces has its callees in the order of the nodes from the start, so that its
second round trip changes nothing at all. -/
theorem inNodeOrder_ofTraces (traces : List Trace) : (ofTraces traces).InNodeOrder := by
  have hkeys : (ofTraces traces).callees.keys = (ofTraces traces).nodes.keys :=
    List.foldlRecOn (motive := fun g : CallGraph => g.callees.keys = g.nodes.keys) _ _ rfl
      fun g hg t _ => keys_callees_addTrace hg t
  rw [InNodeOrder, hkeys]
  simp

end CallGraph

end EntryFlow
