/-!
# Directed graphs

Finite directed graphs whose nodes and arcs keep the order in which they came in, with the two
searches by breadth that answer queries on a call graph. Queries about cycles are left to a library,
of which nothing is known here but what it is asked.

## Main definitions

* `Digraph`, `Digraph.addNode`, `Digraph.addArc`, `Digraph.successors`, `Digraph.reversed`.
* `Digraph.within`: the nodes that a number of arcs at most leads to, nearest first.
* `Digraph.path?`: a shortest path, found from both ends at once.
* `CycleQueries`: what a library answers about cycles.
-/

namespace EntryFlow

/-- Nodes and arcs in order of entry. -/
structure Digraph (α : Type) where
  nodes : List α
  arcs : List (α × α)
  deriving DecidableEq, Repr

namespace Digraph

variable {α : Type} [DecidableEq α]

/-- The graph without nodes. -/
def empty : Digraph α := ⟨[], []⟩

/-- The graph with a node, if it is new. -/
def addNode (g : Digraph α) (v : α) : Digraph α :=
  if v ∈ g.nodes then g else { g with nodes := g.nodes ++ [v] }

/-- The graph with an arc and its ends, as far as they are new. -/
def addArc (g : Digraph α) (arc : α × α) : Digraph α :=
  let g := (g.addNode arc.1).addNode arc.2
  if arc ∈ g.arcs then g else { g with arcs := g.arcs ++ [arc] }

/-- The heads of the arcs that leave a node. -/
def successors (g : Digraph α) (v : α) : List α :=
  g.arcs.filterMap fun arc => if arc.1 = v then some arc.2 else none

/-- The tails of the arcs that enter a node. -/
def predecessors (g : Digraph α) (v : α) : List α :=
  g.arcs.filterMap fun arc => if arc.2 = v then some arc.1 else none

/-- The graph with its arcs turned round, in the order of the nodes that they leave. -/
def reversed (g : Digraph α) : Digraph α where
  nodes := g.nodes
  arcs := g.nodes.flatMap fun v => (g.successors v).map fun w => (w, v)

/-- The first occurrences in a list of the members that were not seen before. -/
def fresh (seen : List α) : List α → List α
  | [] => []
  | v :: vs => if v ∈ seen then fresh seen vs else v :: fresh (v :: seen) vs

/-- The nodes that `depth` arcs at most lead to from a level, without those that were seen. -/
def levelsFrom (g : Digraph α) (depth : Nat) (seen level : List α) : List α :=
  match depth with
  | 0 => []
  | depth + 1 =>
    match fresh seen (level.flatMap g.successors) with
    | [] => []
    | next => next ++ g.levelsFrom depth (next ++ seen) next

/-- The nodes other than `v` that `depth` arcs at most lead to from `v`, nearest first. -/
def within (g : Digraph α) (depth : Nat) (v : α) : List α :=
  g.levelsFrom depth [v] [v]

/-- The nodes other than `v` that some path leads to from `v`, nearest first. A shortest path has
fewer arcs than there are nodes. -/
def reachable (g : Digraph α) (v : α) : List α :=
  g.within g.nodes.length v

/-- One end of a search for a path: the node it starts from, for each node it has come to the one it
came from, and the nodes to go on from. -/
structure End (α : Type) where
  start : α
  links : List (α × α)
  fringe : List α

/-- Whether an end has come to a node. -/
def End.knows (e : End α) (v : α) : Bool :=
  v = e.start || e.links.any fun link => link.1 = v

/-- Come to the head of an arc, if it is new. -/
def End.follow (e : End α) (arc : α × α) : End α :=
  if e.knows arc.2 then e
  else { e with links := e.links ++ [(arc.2, arc.1)], fringe := e.fringe ++ [arc.2] }

/-- Follow arcs until one leads to a node that the other end has come to. -/
def End.followAll (other e : End α) : List (α × α) → End α × Option α
  | [] => (e, none)
  | arc :: arcs =>
    let e := e.follow arc
    if other.knows arc.2 then (e, some arc.2) else followAll other e arcs

/-- Follow all arcs from the fringe. -/
def End.sweep (other e : End α) (next : α → List α) : End α × Option α :=
  followAll other { e with fringe := [] }
    (e.fringe.flatMap fun v => (next v).map fun w => (v, w))

/-- The nodes from `v` back to the start of an end; `fuel` bounds their number. -/
def End.trail (e : End α) (fuel : Nat) (v : α) : List α :=
  match fuel with
  | 0 => [v]
  | fuel + 1 =>
    match e.links.find? fun link => link.1 = v with
    | some link => v :: e.trail fuel link.2
    | none => [v]

/-- The path through a node at which two ends meet. -/
def End.join (front back : End α) (v : α) : List α :=
  (front.trail front.links.length v).reverse ++ (back.trail back.links.length v).drop 1

/-- Sweep from the end with the smaller fringe until the ends meet or one has nowhere to go. Every
sweep comes to a new node or is the last one, which bounds their number. -/
def search (g : Digraph α) (fuel : Nat) (front back : End α) : Option (List α) :=
  match fuel with
  | 0 => none
  | fuel + 1 =>
    if front.fringe.isEmpty || back.fringe.isEmpty then none
    else if front.fringe.length ≤ back.fringe.length then
      match End.sweep back front g.successors with
      | (front, some v) => some (front.join back v)
      | (front, none) => g.search fuel front back
    else
      match End.sweep front back g.predecessors with
      | (back, some v) => some (front.join back v)
      | (back, none) => g.search fuel front back

/-- A shortest path between two nodes of the graph. -/
def path? (g : Digraph α) (a b : α) : Option (List α) :=
  if a ∉ g.nodes || b ∉ g.nodes then none
  else if a = b then some [a]
  else g.search (2 * g.nodes.length + 2) ⟨a, [], [a]⟩ ⟨b, [], [b]⟩

end Digraph

/-- The queries about cycles that a library of graphs answers. -/
structure CycleQueries (α : Type) where
  /-- Whether a graph has no directed cycle. -/
  isAcyclic (g : Digraph α) : Bool
  /-- The elementary cycles of a graph. -/
  cycles (g : Digraph α) : List (List α)

end EntryFlow
