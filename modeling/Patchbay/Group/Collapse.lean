import Patchbay.Graph.Basic
import Patchbay.Group.Config

/-!
Making a group config again from the members that an expansion has left in a graph.
-/
set_option autoImplicit false

namespace Patchbay

namespace Graph

/-- The position that a node has among the members of an instance. -/
def memberIndex? (place : NodeId) (count : Nat) (id : NodeId) : Option Nat :=
  (List.range count).find? fun index => place.member index == id

def memberLink? (place : NodeId) (count : Nat) (link : Link) : Option GroupLink := do
  let origin ← memberIndex? place count link.origin
  let target ← memberIndex? place count link.target
  return ⟨some (.ofCount origin), link.originSlot, .ofCount target, link.targetSlot, [.text link.type]⟩

/-- The config of the members of an instance, with the links between them. All `count` members must be
there. -/
def collapse? (g : Graph) (place : NodeId) (count : Nat) : Option GroupConfig := do
  let nodes ← (List.range count).mapM fun index => do
    let node ← g.node? (place.member index)
    return { node.unlinked with id := .number (Int64.ofNat index) }
  return ⟨nodes, g.links.filterMap (memberLink? place count), []⟩

end Graph
end Patchbay
