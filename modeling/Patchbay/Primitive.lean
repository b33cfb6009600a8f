import Patchbay.Graph.Basic
import Patchbay.Group.Definitions

/-!
Primitive nodes hold a value for other nodes. Before a graph is compiled the value is copied into every
widget whose input the primitive feeds.
-/
set_option autoImplicit false

namespace Patchbay

/-- A graph, and how many widgets were written. -/
structure PrimitivePass where
  graph : Graph
  written : Nat

namespace Graph

/-- The input slots that an output slot of a node feeds. -/
def targetsOf (g : Graph) (slot : OutputSlot) : List (NodeId × Nat) :=
  (slot.linkIds.filterMap g.link?).map fun link => (link.target, link.targetSlot.toNat)

/-- The value of a primitive and the slots that its first data output feeds. -/
def primitive? (g : Graph) (r : Registry) (id : NodeId) : Option (Json × List (NodeId × Nat)) := do
  let node ← g.node? id
  if r.virtualKind? node.type == some .primitive then
    let value ← node.widgetValues.head?
    let output ← node.outputs[node.flowOutputCount]?
    return (value, g.targetsOf output)
  else none

/-- The node with the value in the widget that its input slot was converted from. -/
def writtenNode? (g : Graph) (defs : Definitions) (value : Json) (target : NodeId × Nat) :
    Option Node := do
  let node ← g.node? target.1
  let op ← defs.operation? node.type
  let widget ← (← node.inputs[target.2]?).widget
  node.setWidget? op defs.registry widget.name value

end Graph

namespace PrimitivePass

def write (defs : Definitions) (value : Json) (pass : PrimitivePass) (target : NodeId × Nat) :
    PrimitivePass :=
  match pass.graph.writtenNode? defs value target with
  | some node => ⟨pass.graph.modifyNode target.1 fun _ => node, pass.written + 1⟩
  | none => pass

def visit (defs : Definitions) (pass : PrimitivePass) (id : NodeId) : PrimitivePass :=
  match pass.graph.primitive? defs.registry id with
  | some (value, targets) => targets.foldl (write defs value) pass
  | none => pass

end PrimitivePass

/-- Lets the primitives among the nodes write their values, in this order. -/
def Graph.applyPrimitives (g : Graph) (defs : Definitions) (order : List NodeId) : PrimitivePass :=
  order.foldl (PrimitivePass.visit defs) ⟨g, 0⟩

end Patchbay
