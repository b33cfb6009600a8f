import Patchbay.Graph.Basic
import Patchbay.Registry
import Patchbay.Sequencing.Order

/-!
Who really supplies an input. Virtual and bypassed nodes forward what they receive, so a link is followed
back through them; a walk that comes back to a node it has seen finds nobody.
-/
set_option autoImplicit false

namespace Patchbay

/-- An output slot of a node. -/
structure Producer where
  node : NodeId
  slot : Word
deriving DecidableEq

namespace Node

/-- The input through which a virtual node passes on what leaves its output: the one at the same place
among the data slots. -/
def virtualInput? (node : Node) (slot : Word) : Option Nat :=
  (slot.lower? node.flowOutputCount).map fun dataSlot =>
    (Word.ofCount node.flowInputCount + dataSlot).toNat

def isDataInput (node : Node) (type : String) (index : Nat) : Bool :=
  (node.inputs[index]?).any fun slot => !slot.isFlow && slot.type == type

/-- The input through which a bypassed node passes on a value of a type: the one at the place of the
output if it has that type, or else the first one that has. -/
def bypassInput? (node : Node) (type : String) (slot : Word) : Option Nat :=
  (slot.toNat :: List.range node.inputs.length).find? (node.isDataInput type)

end Node

namespace Graph

/-- Follows a link back to where its value comes from; `unvisited` holds the nodes that the walk may still enter. -/
def follow (g : Graph) (r : Registry) (type : String) (unvisited : List NodeId) (link : Link) :
    Option Producer :=
  match g.node? link.origin with
  | none => none
  | some node =>
    if node.id ∈ unvisited then
      match r.participation node with
      | .normal => some ⟨node.id, link.originSlot⟩
      | .muted => none
      | .virtual =>
        match (node.virtualInput? link.originSlot).bind (g.incoming? node.id) with
        | some link => follow g r type (without node.id unvisited) link
        | none => none
      | .bypassed =>
        match (node.bypassInput? type link.originSlot).bind (g.incoming? node.id) with
        | some link => follow g r type (without node.id unvisited) link
        | none => none
    else none
termination_by unvisited.length
decreasing_by all_goals exact length_without_lt (by assumption)

/-- The producer behind an input slot. -/
def resolveInput (g : Graph) (r : Registry) (id : NodeId) (slot : Nat) : Option Producer := do
  let node ← g.node? id
  let input ← node.inputs[slot]?
  let link ← g.incoming? id slot
  g.follow r input.type g.nodeIds link

/-- Goes back from an output through pass-through nodes only. -/
def behindPassThrough (g : Graph) (r : Registry) (unvisited : List NodeId) (producer : Producer) :
    Option Producer :=
  match g.node? producer.node with
  | none => none
  | some node =>
    if r.isPassThrough node.type then
      if producer.node ∈ unvisited then
        match g.incoming? producer.node node.flowInputCount with
        | some link =>
          behindPassThrough g r (without producer.node unvisited) ⟨link.origin, link.originSlot⟩
        | none => none
      else none
    else some producer
termination_by unvisited.length
decreasing_by exact length_without_lt (by assumption)

/-- The first output, going back, that does not belong to a pass-through node. -/
def resolvePassThrough (g : Graph) (r : Registry) (producer : Producer) : Option Producer :=
  g.behindPassThrough r g.nodeIds producer

end Graph
end Patchbay
