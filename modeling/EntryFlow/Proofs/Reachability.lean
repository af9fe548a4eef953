import EntryFlow.Proofs.Distance

/-!
# Nodes within a number of arcs

The search level by level finds the nodes that a number of arcs at most leads to. In a graph whose
arcs have their ends among the nodes, as many levels as there are nodes find all that can be
reached, and the graph turned round finds the nodes from which a node can be reached.

## Main definitions

* `Digraph.Adj`: an arc between two nodes.
* `Digraph.Closed`: graphs whose arcs have their ends among the nodes.

## Main statements

* `Digraph.mem_within_iff`: what the search finds.
* `Digraph.Closed.mem_within_length_iff`: when it finds all there is.
* `Digraph.Closed.adj_reversed`: the arcs of the graph turned round.
-/

namespace EntryFlow.Digraph

variable {α : Type} {g : Digraph α} {v w : α} {n depth : Nat}

/-! ## Arcs -/

/-- An arc leads from one node to the other. -/
def Adj (g : Digraph α) (v w : α) : Prop :=
  (v, w) ∈ g.arcs

/-- The ends of every arc are nodes. -/
def Closed (g : Digraph α) : Prop :=
  ∀ v w, g.Adj v w → v ∈ g.nodes ∧ w ∈ g.nodes

namespace Closed

theorem mem_of_leads (h : g.Closed) (hleads : Leads g.Adj n v w) (hv : v ∈ g.nodes) :
    w ∈ g.nodes := by
  induction hleads with
  | here => exact hv
  | arc harc _ ih => exact ih (h _ _ harc).2

/-- What leads to another node is a node, as is what it leads to. -/
theorem mem_and_mem (h : g.Closed) (hleads : Leads g.Adj n v w) (hne : v ≠ w) :
    v ∈ g.nodes ∧ w ∈ g.nodes := by
  cases hleads with
  | here => exact absurd rfl hne
  | arc harc hleads => exact ⟨(h _ _ harc).1, h.mem_of_leads hleads (h _ _ harc).2⟩

/-- No node is further away from a node than there are nodes. -/
theorem lt_length_of_away (h : g.Closed) (hv : v ∈ g.nodes) (haway : Away g.Adj n v w) :
    n < g.nodes.length :=
  haway.lt_length fun _ _ hleads => h.mem_of_leads hleads hv

/-- What leads to another node does so over fewer arcs than there are nodes. -/
theorem exists_leads_lt_length (h : g.Closed) (hleads : Leads g.Adj n v w) (hne : v ≠ w) :
    ∃ m < g.nodes.length, m ≤ n ∧ Leads g.Adj m v w := by
  obtain ⟨m, hm, haway⟩ := hleads.exists_away
  exact ⟨m, h.lt_length_of_away (h.mem_and_mem hleads hne).1 haway, hm, haway.1⟩

end Closed

variable [DecidableEq α]

theorem mem_successors_iff : w ∈ g.successors v ↔ g.Adj v w := by
  simp only [successors, List.mem_filterMap, Option.ite_none_right_eq_some, Option.some.injEq, Adj]
  constructor
  · rintro ⟨⟨_, _⟩, harc, rfl, rfl⟩
    exact harc
  · intro harc
    exact ⟨(v, w), harc, rfl, rfl⟩

theorem mem_predecessors_iff : v ∈ g.predecessors w ↔ g.Adj v w := by
  simp only [predecessors, List.mem_filterMap, Option.ite_none_right_eq_some, Option.some.injEq,
    Adj]
  constructor
  · rintro ⟨⟨_, _⟩, harc, rfl, rfl⟩
    exact harc
  · intro harc
    exact ⟨(v, w), harc, rfl, rfl⟩

@[simp] theorem nodes_reversed (g : Digraph α) : g.reversed.nodes = g.nodes := rfl

/-- The graph turned round has the same arcs in the other direction. -/
theorem Closed.adj_reversed (h : g.Closed) : g.reversed.Adj = flip g.Adj := by
  funext v w
  simp only [Adj, reversed, List.mem_flatMap, List.mem_map, mem_successors_iff, Prod.mk.injEq, flip,
    eq_iff_iff]
  constructor
  · rintro ⟨_, -, _, harc, rfl, rfl⟩
    exact harc
  · intro harc
    exact ⟨w, (h w v harc).1, v, harc, rfl, rfl⟩

theorem Closed.reversed (h : g.Closed) : g.reversed.Closed := by
  intro v w harc
  rw [h.adj_reversed] at harc
  exact (h w v harc).symm

/-! ## Growth -/

@[simp] theorem mem_nodes_addNode : w ∈ (g.addNode v).nodes ↔ w ∈ g.nodes ∨ w = v := by
  unfold addNode
  split
  · rename_i hold
    exact ⟨.inl, fun h => h.elim id fun h => h ▸ hold⟩
  · rw [List.mem_append, List.mem_singleton]

@[simp] theorem arcs_addNode (g : Digraph α) (v : α) : (g.addNode v).arcs = g.arcs := by
  unfold addNode
  split <;> rfl

theorem mem_nodes_addArc {arc : α × α} :
    w ∈ (g.addArc arc).nodes ↔ (w ∈ g.nodes ∨ w = arc.1) ∨ w = arc.2 := by
  unfold addArc
  dsimp only
  split <;> simp only [mem_nodes_addNode]

theorem adj_addArc {arc : α × α} : (g.addArc arc).Adj v w ↔ g.Adj v w ∨ arc = (v, w) := by
  unfold addArc Adj
  dsimp only
  split
  · rename_i hold
    simp only [arcs_addNode] at hold ⊢
    exact ⟨.inl, fun h => h.elim id fun h => h ▸ hold⟩
  · simp only [arcs_addNode, List.mem_append, List.mem_singleton, eq_comm]

theorem Closed.addNode (h : g.Closed) (v : α) : (g.addNode v).Closed := by
  intro u w harc
  rw [Adj, arcs_addNode] at harc
  simp only [mem_nodes_addNode]
  exact (h u w harc).imp .inl .inl

theorem Closed.addArc (h : g.Closed) (arc : α × α) : (g.addArc arc).Closed := by
  intro u w harc
  simp only [mem_nodes_addArc]
  rcases adj_addArc.mp harc with harc | rfl
  · exact (h u w harc).imp (fun hu => .inl (.inl hu)) fun hw => .inl (.inl hw)
  · exact ⟨.inl (.inr rfl), .inr rfl⟩

theorem nodup_nodes_addNode (h : g.nodes.Nodup) (v : α) : (g.addNode v).nodes.Nodup := by
  unfold addNode
  split
  · exact h
  · rename_i hnew
    exact List.concat_eq_append ▸ (List.nodup_concat _ _).mpr ⟨hnew, h⟩

theorem nodup_nodes_addArc (h : g.nodes.Nodup) (arc : α × α) : (g.addArc arc).nodes.Nodup := by
  have hends := nodup_nodes_addNode (nodup_nodes_addNode h arc.1) arc.2
  unfold addArc
  dsimp only
  split <;> exact hends

/-! ## Levels -/

theorem mem_fresh_iff {seen vs : List α} : w ∈ fresh seen vs ↔ w ∈ vs ∧ w ∉ seen := by
  induction vs generalizing seen with
  | nil => simp [fresh]
  | cons v vs ih =>
    by_cases hv : v ∈ seen
    · rw [fresh, if_pos hv, ih, List.mem_cons]
      refine ⟨fun ⟨hw, hnew⟩ => ⟨.inr hw, hnew⟩, ?_⟩
      rintro ⟨rfl | hw, hnew⟩
      · exact absurd hv hnew
      · exact ⟨hw, hnew⟩
    · rw [fresh, if_neg hv, List.mem_cons, ih, List.mem_cons, List.mem_cons, not_or]
      by_cases hw : w = v
      · simp [hw, hv]
      · simp [hw]

theorem levelsFrom_nil (seen : List α) : g.levelsFrom depth seen [] = [] := by
  cases depth <;> rfl

/-- The next level is found, and then those behind it. -/
theorem levelsFrom_succ (seen level : List α) :
    g.levelsFrom (depth + 1) seen level =
      fresh seen (level.flatMap g.successors) ++
        g.levelsFrom depth (fresh seen (level.flatMap g.successors) ++ seen)
          (fresh seen (level.flatMap g.successors)) := by
  rw [levelsFrom]
  split
  · rename_i hnone
    rw [hnone, levelsFrom_nil, List.append_nil]
  · rfl

/-- A search that has gone some levels finds with further levels what is further away. -/
theorem mem_levelsFrom_iff {seen level : List α}
    (h : Levelled g.Adj v n (· ∈ seen) level) :
    w ∈ g.levelsFrom depth seen level ↔ ∃ k, n < k ∧ k ≤ n + depth ∧ Away g.Adj k v w := by
  induction depth generalizing n seen level with
  | zero =>
    refine ⟨fun hw => absurd hw List.not_mem_nil, ?_⟩
    rintro ⟨k, hn, hk, -⟩
    omega
  | succ depth ih =>
    have hnext : Levelled g.Adj v (n + 1)
        (· ∈ fresh seen (level.flatMap g.successors) ++ seen)
        (fresh seen (level.flatMap g.successors)) := by
      refine h.succ (fun w => ?_) fun w => ?_
      · simp only [mem_fresh_iff, List.mem_flatMap, mem_successors_iff]
      · rw [List.mem_append, or_comm]
    rw [levelsFrom_succ, List.mem_append, hnext.mem_level_iff, ih hnext]
    constructor
    · rintro (hw | ⟨k, hn, hk, hw⟩)
      · exact ⟨n + 1, by omega, by omega, hw⟩
      · exact ⟨k, by omega, by omega, hw⟩
    · rintro ⟨k, hn, hk, hw⟩
      rcases Nat.lt_or_ge (n + 1) k with hlt | hge
      · exact .inr ⟨k, hlt, by omega, hw⟩
      · obtain rfl : k = n + 1 := by omega
        exact .inl hw

/-- The search finds the other nodes that a number of arcs at most leads to. -/
theorem mem_within_iff : w ∈ g.within depth v ↔ w ≠ v ∧ ∃ n ≤ depth, Leads g.Adj n v w := by
  rw [within, mem_levelsFrom_iff (.start fun w => List.mem_singleton), Nat.zero_add]
  constructor
  · rintro ⟨k, hpos, hk, hw⟩
    refine ⟨?_, k, hk, hw.1⟩
    rintro rfl
    exact hpos.ne ((away_zero w).eq hw)
  · rintro ⟨hne, n, hn, hleads⟩
    obtain ⟨k, hk, hw⟩ := hleads.exists_away
    refine ⟨k, Nat.pos_of_ne_zero ?_, hk.trans hn, hw⟩
    rintro rfl
    exact hne (leads_zero_iff.mp hw.1).symm

/-- What is found along the arcs of the graph turned round is what finds the node along its own. -/
theorem Closed.mem_within_reversed_iff (h : g.Closed) :
    w ∈ g.reversed.within depth v ↔ v ∈ g.within depth w := by
  simp only [mem_within_iff, h.adj_reversed, leads_flip_iff, ne_comm]

/-- More levels than there are nodes find nothing more. -/
theorem Closed.mem_within_min_iff (h : g.Closed) :
    w ∈ g.within (min g.nodes.length depth) v ↔ w ∈ g.within depth v := by
  simp only [mem_within_iff]
  refine and_congr_right fun hne => ⟨?_, ?_⟩
  · rintro ⟨n, hn, hleads⟩
    exact ⟨n, hn.trans (min_le_right _ _), hleads⟩
  · rintro ⟨n, hn, hleads⟩
    obtain ⟨k, hcount, hk, hleads⟩ := h.exists_leads_lt_length hleads hne.symm
    exact ⟨k, le_min hcount.le (hk.trans hn), hleads⟩

/-- As many levels as there are nodes find all that can be reached. -/
theorem Closed.mem_within_length_iff (h : g.Closed) :
    w ∈ g.within g.nodes.length v ↔ w ≠ v ∧ ∃ n, Leads g.Adj n v w := by
  rw [mem_within_iff]
  refine and_congr_right fun hne => ⟨fun ⟨n, _, hleads⟩ => ⟨n, hleads⟩, ?_⟩
  rintro ⟨n, hleads⟩
  obtain ⟨k, hcount, -, hleads⟩ := h.exists_leads_lt_length hleads hne.symm
  exact ⟨k, hcount.le, hleads⟩

end EntryFlow.Digraph
