import EntryFlow.Analysis
import EntryFlow.Digraph
import EntryFlow.Text.Glob

/-!
# Call graphs

The callers and callees of all traced entry points. A trace lists a node once, so the graph is put
together from its steps and from the calls that were left out. Queries work on a view of the graph
that is built when the first of them needs it and kept until a node or an edge is added.

## Main definitions

* `CallNode`, `CallGraph`: nodes by signature, callees and callers by signature, entry points.
* `CallView`, `CallGraph.freshView`: the directed graph that queries work on.
* `CallGraph.addNode`, `CallGraph.addEdge`, `CallGraph.addTrace`, `CallGraph.ofTraces`.
* `CallGraph.findPath`, `CallGraph.findCycles`, `CallGraph.findReachable`, `CallGraph.findNodes`.
* `CallGraph.load`, `CallGraph.save`.
-/

namespace EntryFlow

/-- A method or a framework leaf. -/
structure CallNode where
  signature : Datum
  className : Datum
  methodName : Datum
  framework : Datum
  deriving DecidableEq, Repr

namespace CallNode

/-- The text behind the mark of a framework leaf, if the signature has that mark. -/
def frameworkText? (signature : String) : Option String :=
  (frameworkPrefix.toList.isPrefixOf? signature.toList).map String.ofList

/-- The declaring type and the method name of a signature, and whether it is a framework leaf. -/
def parts (signature : String) : String × String × Bool :=
  let text := (frameworkText? signature).getD signature
  let (owner, member) := Name.ownerAndMember ((Call.callee? text).getD text)
  (owner, member, (frameworkText? signature).isSome)

/-- The node of a signature. -/
def ofSignature (signature : String) : CallNode :=
  let (className, methodName, framework) := parts signature
  ⟨.text signature, .text className, .text methodName, .bool framework⟩

/-- Read a node. -/
def load (d : Datum) : Except Fault CallNode := do
  return { signature := ← d.require "signature"
           className := ← d.get "class_name" (.text "")
           methodName := ← d.get "method_name" (.text "")
           framework := ← d.get "framework" (.bool false) }

/-- Write a node. -/
def save (n : CallNode) : Datum :=
  .object
    [("signature", n.signature), ("class_name", n.className), ("method_name", n.methodName),
      ("framework", n.framework)]

end CallNode

/-- The directed graph of a call graph, with the attributes of those of its nodes that have some. -/
structure CallView where
  digraph : Digraph Datum
  attributes : Table Datum Datum
  deriving DecidableEq, Repr

/-- Callers and callees across entry points. -/
structure CallGraph where
  nodes : Table Datum CallNode
  callees : Table Datum (List Datum)
  callers : Table Datum (List Datum)
  entryPoints : List Datum
  /-- What queries work on, once one has built it. -/
  view? : Option CallView
  deriving DecidableEq, Repr

namespace CallGraph

/-- The graph without nodes. -/
def empty : CallGraph := ⟨[], [], [], [], none⟩

/-- The graph when everything was taken out of it. -/
def clear (_ : CallGraph) : CallGraph := empty

/-- Add a node unless its signature is known. -/
def addNode (g : CallGraph) (n : CallNode) : CallGraph :=
  if g.nodes.has n.signature then g
  else
    { g with
      nodes := g.nodes.set n.signature n
      callees := g.callees.setNew n.signature []
      callers := g.callers.setNew n.signature []
      view? := none }

/-- Add a node whose signature can be a key. -/
def insertNode (g : CallGraph) (n : CallNode) : Except Fault CallGraph :=
  if n.signature.isKey then .ok (g.addNode n) else .error .notAKey

/-- The neighbours of a signature. -/
def neighbours (table : Table Datum (List Datum)) (signature : Datum) : List Datum :=
  (table.find? signature).getD []

/-- Add an edge unless it is known, or a loop and loops are not allowed; tell whether it was
added. -/
def addEdge (g : CallGraph) (caller callee : Datum) (loops : Bool) : CallGraph × Bool :=
  if caller = callee && !loops then (g, false)
  else
    let callees := neighbours g.callees caller
    if callee ∈ callees then (g, false)
    else
      let callers := neighbours g.callers callee
      ({ g with
          callees := g.callees.set caller (callees ++ [callee])
          callers := g.callers.set callee
            (if caller ∈ callers then callers else callers ++ [caller])
          view? := none }, true)

/-- Add the node of a signature. -/
def addSignature (g : CallGraph) (signature : String) : CallGraph :=
  g.addNode (.ofSignature signature)

/-- Add an entry point, if it is new. -/
def addEntryPoint (g : CallGraph) (signature : String) : CallGraph :=
  if .text signature ∈ g.entryPoints then g
  else { g with entryPoints := g.entryPoints ++ [.text signature] }

/-- Add the target of a step, and its caller with the edge between them or, without a caller, the
target as an entry point. -/
def addStep (g : CallGraph) (s : Step) : CallGraph :=
  let g := g.addSignature s.target
  match s.caller with
  | none => g.addEntryPoint s.target
  | some caller => ((g.addSignature caller).addEdge (.text caller) (.text s.target) false).1

/-- Add a call that a trace left out; it may be one of a method to itself. -/
def addSuppressed (g : CallGraph) (call : String × String) : CallGraph :=
  (((g.addSignature call.1).addSignature call.2).addEdge (.text call.1) (.text call.2) true).1

/-- Add all that a trace tells. -/
def addTrace (g : CallGraph) (t : Trace) : CallGraph :=
  t.suppressed.foldl addSuppressed (t.steps.foldl addStep g)

/-- The graph of some traces. -/
def ofTraces (traces : List Trace) : CallGraph :=
  traces.foldl addTrace empty

/-- The node of a signature. -/
def node? (g : CallGraph) (signature : Datum) : Option CallNode :=
  g.nodes.find? signature

/-- The nodes that call a signature. -/
def callersOf (g : CallGraph) (signature : Datum) : List CallNode :=
  (neighbours g.callers signature).filterMap g.node?

/-- The nodes that a signature calls. -/
def calleesOf (g : CallGraph) (signature : Datum) : List CallNode :=
  (neighbours g.callees signature).filterMap g.node?

/-- All edges in order. -/
def edges (g : CallGraph) : List (Datum × Datum) :=
  g.callees.flatMap fun (caller, callees) => callees.map fun callee => (caller, callee)

/-- The directed graph of the nodes and edges. -/
def digraph (g : CallGraph) : Digraph Datum :=
  g.edges.foldl Digraph.addArc (g.nodes.keys.foldl Digraph.addNode Digraph.empty)

/-- The view of the nodes and edges; a node has its document for attributes. -/
def freshView (g : CallGraph) : CallView where
  digraph := g.digraph
  attributes := g.nodes.map fun (signature, n) => (signature, n.save)

@[simp] theorem digraph_freshView (g : CallGraph) : g.freshView.digraph = g.digraph := rfl

/-- The view for a query, and the call graph that keeps it. -/
def view (g : CallGraph) : CallView × CallGraph :=
  match g.view? with
  | some v => (v, g)
  | none => (g.freshView, { g with view? := some g.freshView })

/-- A shortest path of calls between two signatures. -/
def findPath (g : CallGraph) (a b : Datum) : Option (List Datum) × CallGraph :=
  let (v, g) := g.view
  (v.digraph.path? a b, g)

/-- All elementary cycles of calls. -/
def findCycles (g : CallGraph) (queries : CycleQueries Datum) : List (List Datum) × CallGraph :=
  let (v, g) := g.view
  (queries.cycles v.digraph, g)

/-- Whether there is a cycle of calls. -/
def hasCycles (g : CallGraph) (queries : CycleQueries Datum) : Bool × CallGraph :=
  let (v, g) := g.view
  (!queries.isAcyclic v.digraph, g)

/-- In which direction calls are followed. -/
inductive Direction where
  | callees
  | callers
  deriving DecidableEq, Repr

/-- The number of levels that a depth allows: all of them without a depth. -/
def levels (count : Nat) (depth : Datum) : Except Fault Nat :=
  match depth with
  | .null => .ok count
  | depth => do
    let below ← (List.range count).mapM fun (n : Nat) => depth.compareInt n
    return (below.takeWhile (· = some .gt)).length

/-- The signatures that are reached from one in either direction, nearest first. -/
def findReachable (g : CallGraph) (signature : Datum) (direction : Direction) (depth : Datum) :
    Except Fault (List Datum) × CallGraph :=
  let (v, g) := g.view
  if signature ∈ v.digraph.nodes then
    let d := match direction with
      | .callees => v.digraph
      | .callers => v.digraph.reversed
    ((levels d.nodes.length depth).map fun n => d.within n signature, g)
  else (.ok [], g)

/-- Whether a pattern has wildcards. -/
def isGlob (pattern : String) : Bool :=
  '*' ∈ pattern.toList || '?' ∈ pattern.toList

/-- Whether a pattern with wildcards matches a name, or one without is part of it. Of a name that is
a list or an object, an item or a key may be the pattern. -/
def nameMatches (pattern : String) (name : Datum) : Except Fault Bool :=
  match name with
  | .text s =>
    .ok (if isGlob pattern then Text.globMatches pattern s
      else Text.occurs pattern.toList s.toList)
  | name =>
    match name.items? with
    | some items => if isGlob pattern then .error .notAText else .ok (.text pattern ∈ items)
    | none => .error .notAText

/-- The nodes whose method name or signature matches a pattern, by signature. -/
def findNodes (g : CallGraph) (pattern : String) : Except Fault (List CallNode) := do
  let found ← g.nodes.values.filterM fun n => do
    if ← nameMatches pattern n.methodName then return true
    nameMatches pattern n.signature
  if found.length < 2 || found.all (·.signature.text?.isSome) then
    return found.mergeSort fun a b => decide (a.signature.display ≤ b.signature.display)
  throw .notOrdered

/-- Counts of a graph. -/
structure Stats where
  nodes : Nat
  edges : Nat
  entryPoints : Nat
  frameworkNodes : Nat
  leaves : Nat
  deriving DecidableEq, Repr

/-- The counts of a graph; a leaf is a node that calls nothing. -/
def stats (g : CallGraph) : Stats where
  nodes := g.nodes.length
  edges := g.edges.length
  entryPoints := g.entryPoints.length
  frameworkNodes := g.nodes.values.countP fun n => !n.framework.isEmpty
  leaves := g.nodes.keys.countP fun signature => (neighbours g.callees signature).isEmpty

/-- Counts as a document. -/
def Stats.save (s : Stats) : Datum :=
  .object
    [("total_nodes", .int s.nodes), ("total_edges", .int s.edges),
      ("entry_points", .int s.entryPoints), ("framework_nodes", .int s.frameworkNodes),
      ("leaf_nodes", .int s.leaves)]

/-- Write a graph; callers follow from callees. -/
def save (g : CallGraph) : Datum :=
  .object
    [("nodes", .object (g.nodes.map fun (name, n) => (name.display, n.save))),
      ("edges", .object (g.callees.map fun (caller, callees) => (caller.display, .list callees))),
      ("entry_points", .list g.entryPoints)]

/-- The fields of an object. -/
def fieldsOf : Datum → Except Fault (List (String × Datum))
  | .object fields => .ok fields
  | _ => .error .noFieldAccess

/-- Add the callees that a document lists for a caller. -/
def loadEdges (g : CallGraph) (caller : String) (callees : Datum) : Except Fault CallGraph := do
  (← callees.items).foldlM (fun g callee =>
    if callee.isKey then .ok (g.addEdge (.text caller) callee true).1 else .error .notAKey) g

/-- Read a graph. -/
def load (d : Datum) : Except Fault CallGraph := do
  let nodes ← fieldsOf (← d.get "nodes" (.object []))
  let g ← nodes.foldlM (fun g field => do g.insertNode (← CallNode.load field.2)) empty
  let edges ← fieldsOf (← d.get "edges" (.object []))
  let g ← edges.foldlM (fun g field => g.loadEdges field.1 field.2) g
  return { g with entryPoints := ← d.getItems "entry_points" }

end CallGraph

end EntryFlow
