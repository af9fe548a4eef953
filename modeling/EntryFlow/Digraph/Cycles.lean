import EntryFlow.Datum.Display
import EntryFlow.Digraph

/-!
# Elementary cycles

One way to answer the queries about cycles. A cycle is listed from its least node on. For each node
the paths that return to it are followed through greater nodes from which the node can be reached
again. Whether there is a cycle is looked up by what each node can reach.

## Main definitions

* `Digraph.cycles`: the elementary cycles in lexicographic order.
* `Digraph.hasCycle`: whether there is a cycle.
* `CycleQueries.byLeastNode`, `CycleQueries.byDisplay`: the queries that these answer.
-/

namespace EntryFlow

namespace Digraph

variable {α : Type} [DecidableEq α]

/-- The part of a graph on some of its nodes. -/
def induced (g : Digraph α) (keep : List α) : Digraph α where
  nodes := g.nodes.filter (· ∈ keep)
  arcs := g.arcs.filter fun arc => arc.1 ∈ keep && arc.2 ∈ keep

/-- The ways to go on with a path, given last node first, until it returns to `start` without
meeting itself. `fuel` bounds the number of arcs. -/
def closings (next : α → List α) (start : α) (fuel : Nat) (path : List α) (last : α) :
    List (List α) :=
  match fuel with
  | 0 => []
  | fuel + 1 =>
    (next last).flatMap fun w =>
      if w = start then [path.reverse]
      else if w ∈ path then []
      else closings next start fuel (w :: path) w

/-- The cycles whose least node is the first of `nodes`, given the nodes that are not less in
order. -/
def cyclesFrom (g : Digraph α) (nodes : List α) (v : α) : List (List α) :=
  let upper := g.induced nodes
  let above := upper.reachable v
  let back := upper.reversed.reachable v
  let region := nodes.filter fun w => w = v || (w ∈ above && w ∈ back)
  let next (u : α) : List α := region.filter fun w => w ∈ g.successors u
  closings next v region.length [v] v

/-- The cycles of a graph whose nodes are given in order. -/
def cyclesOn (g : Digraph α) : List α → List (List α)
  | [] => []
  | v :: vs => g.cyclesFrom (v :: vs) v ++ g.cyclesOn vs

/-- The elementary cycles, each from its least node on, in lexicographic order. -/
def cycles (g : Digraph α) (le : α → α → Bool) : List (List α) :=
  g.cyclesOn (g.nodes.mergeSort le)

/-- Whether some path of at least one arc leads back to where it starts. -/
def hasCycle (g : Digraph α) : Bool :=
  g.nodes.any fun v => (g.successors v).any fun w => w = v || v ∈ g.reachable w

end Digraph

/-- The queries with each cycle listed from its least node on. -/
def CycleQueries.byLeastNode {α : Type} [DecidableEq α] (le : α → α → Bool) : CycleQueries α where
  isAcyclic g := !g.hasCycle
  cycles g := g.cycles le

/-- The queries on graphs of values, in the order in which values are written. -/
def CycleQueries.byDisplay : CycleQueries Datum :=
  .byLeastNode fun a b => decide (a.display ≤ b.display)

end EntryFlow
