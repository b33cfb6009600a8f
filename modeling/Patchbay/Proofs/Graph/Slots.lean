import Mathlib.Data.List.Nodup
import Patchbay.Graph.Basic

/-!
What hanging a link in or taking it out does to the slots of a graph, slot by slot.
-/
set_option autoImplicit false

namespace Patchbay

namespace Link

def entersAt (link : Link) (id : NodeId) (slot : Nat) : Prop :=
  link.target = id ∧ link.targetSlot.toNat = slot

def leavesAt (link : Link) (id : NodeId) (slot : Nat) : Prop :=
  link.origin = id ∧ link.originSlot.toNat = slot

instance (link : Link) (id : NodeId) (slot : Nat) : Decidable (link.entersAt id slot) :=
  inferInstanceAs (Decidable (_ ∧ _))

instance (link : Link) (id : NodeId) (slot : Nat) : Decidable (link.leavesAt id slot) :=
  inferInstanceAs (Decidable (_ ∧ _))

end Link

def InputSlot.holding (id : LinkId) (slot : InputSlot) : InputSlot := { slot with link := some id }

def InputSlot.without (id : LinkId) (slot : InputSlot) : InputSlot :=
  if slot.link = some id then slot.unlinked else slot

def OutputSlot.attachOnce (id : LinkId) (slot : OutputSlot) : OutputSlot :=
  if slot.linkIds.contains id then slot else slot.attach id

namespace Node

-- The node after a change at whichever of its slots the link names.
def rewire (link : Link) (input : InputSlot → InputSlot) (output : OutputSlot → OutputSlot) (node : Node) : Node :=
  { node with
    inputs := if node.id = link.target then node.inputs.modify link.targetSlot.toNat input else node.inputs
    outputs := if node.id = link.origin then node.outputs.modify link.originSlot.toNat output
      else node.outputs }

theorem rewire_input (link : Link) (input : InputSlot → InputSlot) (output : OutputSlot → OutputSlot) (node : Node)
    (slot : Nat) : (node.rewire link input output).inputs[slot]? =
      node.inputs[slot]?.map fun old => if link.entersAt node.id slot then input old else old := by
  rw [rewire]
  by_cases target : node.id = link.target
  · simp only [if_pos target, List.getElem?_modify]
    by_cases here : link.targetSlot.toNat = slot <;> cases node.inputs[slot]? <;>
      simp [Link.entersAt, target, here]
  · simp only [if_neg target]
    cases node.inputs[slot]? <;> simp [Link.entersAt, Ne.symm target]

theorem rewire_output (link : Link) (input : InputSlot → InputSlot) (output : OutputSlot → OutputSlot) (node : Node)
    (slot : Nat) : (node.rewire link input output).outputs[slot]? =
      node.outputs[slot]?.map fun old => if link.leavesAt node.id slot then output old else old := by
  rw [rewire]
  by_cases origin : node.id = link.origin
  · simp only [if_pos origin, List.getElem?_modify]
    by_cases here : link.originSlot.toNat = slot <;> cases node.outputs[slot]? <;>
      simp [Link.leavesAt, origin, here]
  · simp only [if_neg origin]
    cases node.outputs[slot]? <;> simp [Link.leavesAt, Ne.symm origin]

end Node

namespace Graph

def inputAt? (g : Graph) (id : NodeId) (slot : Nat) : Option InputSlot := (g.node? id).bind (·.inputs[slot]?)

def outputAt? (g : Graph) (id : NodeId) (slot : Nat) : Option OutputSlot := (g.node? id).bind (·.outputs[slot]?)

-- Which nodes there are, in document order.
def roster (g : Graph) : List (NodeId × String) := g.nodes.map fun node => (node.id, node.type)

theorem nodeIds_eq_roster (g : Graph) : g.nodeIds = g.roster.map Prod.fst := by
  rw [roster, List.map_map]
  rfl

def rewire (g : Graph) (link : Link) (input : InputSlot → InputSlot) (output : OutputSlot → OutputSlot) : Graph :=
  { g with nodes := g.nodes.map (·.rewire link input output) }

section Rewire

variable (g : Graph) (link : Link)

-- Two changes, at the origin and then at the target, are one change of the node that has both ends.
theorem modifyNode_modifyNode (input : InputSlot → InputSlot) (output : OutputSlot → OutputSlot) :
    (g.modifyNode link.origin fun node =>
        { node with outputs := node.outputs.modify link.originSlot.toNat output }).modifyNode link.target
      (fun node => { node with inputs := node.inputs.modify link.targetSlot.toNat input }) =
      g.rewire link input output := by
  simp only [modifyNode, rewire, List.map_map]
  congr 1
  apply List.map_congr_left
  intro node _
  simp only [Function.comp, Node.rewire]
  by_cases origin : node.id = link.origin
  · by_cases target : node.id = link.target
    · simp only [if_pos origin, if_pos target]
    · simp only [if_pos origin, if_neg target]
  · by_cases target : node.id = link.target
    · simp only [if_neg origin, if_pos target]
    · simp only [if_neg origin, if_neg target]

theorem attach_eq : g.attach link = g.rewire link (.holding link.id) (.attachOnce link.id) :=
  g.modifyNode_modifyNode link (.holding link.id) (.attachOnce link.id)

theorem detach_eq : g.detach link = g.rewire link (.without link.id) (·.detach link.id) :=
  g.modifyNode_modifyNode link (.without link.id) (·.detach link.id)

theorem node?_map (change : Node → Node) (sameId : ∀ node, (change node).id = node.id) (id : NodeId) :
    ({ g with nodes := g.nodes.map change }).node? id = (g.node? id).map change := by
  rw [node?, List.find?_map]
  have same : ((fun node : Node => node.id == id) ∘ change) = fun node => node.id == id := by
    funext node
    simp only [Function.comp, sameId]
  rw [same]
  rfl

theorem id_of_node? {g : Graph} {id : NodeId} {node : Node} (found : g.node? id = some node) : node.id = id := by
  simpa using List.find?_some found

theorem roster_rewire (input : InputSlot → InputSlot) (output : OutputSlot → OutputSlot) :
    (g.rewire link input output).roster = g.roster := by
  simp only [roster, rewire, List.map_map]
  rfl

theorem inputAt?_rewire (input : InputSlot → InputSlot) (output : OutputSlot → OutputSlot) (id : NodeId)
    (slot : Nat) : (g.rewire link input output).inputAt? id slot =
      (g.inputAt? id slot).map fun old => if link.entersAt id slot then input old else old := by
  have node := g.node?_map (·.rewire link input output) (fun _ => rfl) id
  rw [inputAt?, rewire, node, inputAt?]
  cases found : g.node? id with
  | none => rfl
  | some node =>
    rw [Option.map_some, Option.bind_some, Option.bind_some, Node.rewire_input, id_of_node? found]

theorem outputAt?_rewire (input : InputSlot → InputSlot) (output : OutputSlot → OutputSlot) (id : NodeId)
    (slot : Nat) : (g.rewire link input output).outputAt? id slot =
      (g.outputAt? id slot).map fun old => if link.leavesAt id slot then output old else old := by
  have node := g.node?_map (·.rewire link input output) (fun _ => rfl) id
  rw [outputAt?, rewire, node, outputAt?]
  cases found : g.node? id with
  | none => rfl
  | some node =>
    rw [Option.map_some, Option.bind_some, Option.bind_some, Node.rewire_output, id_of_node? found]

end Rewire

end Graph
end Patchbay
