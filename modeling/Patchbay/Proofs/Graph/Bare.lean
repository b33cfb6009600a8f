import Patchbay.Proofs.Graph.Nodes
import Patchbay.Proofs.Sequencing.Slots

/-!
A graph without its links. Hanging links in and taking them out changes nothing else about the nodes, and
this holds of graphs that are not wired as well.
-/
set_option autoImplicit false

namespace Patchbay

namespace Node

theorem unlinked_rewire (link : Link) (input : InputSlot → InputSlot) (output : OutputSlot → OutputSlot)
    (inputs : ∀ slot, (input slot).unlinked = slot.unlinked) (outputs : ∀ slot, (output slot).unlinked = slot.unlinked)
    (node : Node) : (node.rewire link input output).unlinked = node.unlinked := by
  have sameInputs : (node.rewire link input output).inputs.map (·.unlinked) = node.inputs.map (·.unlinked) := by
    by_cases target : node.id = link.target
    · simp only [rewire, if_pos target, map_modify_same input _ inputs]
    · simp only [rewire, if_neg target]
  have sameOutputs : (node.rewire link input output).outputs.map (·.unlinked) = node.outputs.map (·.unlinked) := by
    by_cases origin : node.id = link.origin
    · simp only [rewire, if_pos origin, map_modify_same output _ outputs]
    · simp only [rewire, if_neg origin]
  rw [unlinked, sameInputs, sameOutputs]
  rfl

end Node

theorem InputSlot.unlinked_without (id : LinkId) (slot : InputSlot) : (slot.without id).unlinked = slot.unlinked := by
  by_cases here : slot.link = some id
  · rw [without, if_pos here]
    rfl
  · rw [without, if_neg here]

theorem OutputSlot.unlinked_attachOnce (id : LinkId) (slot : OutputSlot) :
    (slot.attachOnce id).unlinked = slot.unlinked := by
  by_cases there : slot.linkIds.contains id
  · rw [attachOnce, if_pos there]
  · rw [attachOnce, if_neg there]
    rfl

namespace Graph

def bare (g : Graph) : List Node := g.nodes.map (·.unlinked)

theorem bare_node? (g : Graph) (id : NodeId) : (g.node? id).map (·.unlinked) = g.bare.find? (·.id == id) := by
  rw [node?, bare, List.find?_map]
  rfl

theorem bare_rewire (g : Graph) (link : Link) (input : InputSlot → InputSlot) (output : OutputSlot → OutputSlot)
    (inputs : ∀ slot, (input slot).unlinked = slot.unlinked)
    (outputs : ∀ slot, (output slot).unlinked = slot.unlinked) : (g.rewire link input output).bare = g.bare := by
  simp only [bare, rewire, List.map_map]
  apply List.map_congr_left
  intro node _
  exact node.unlinked_rewire link input output inputs outputs

theorem bare_release (g : Graph) (id : LinkId) : (g.release id).bare = g.bare := by
  rw [release]
  cases g.link? id with
  | none => rfl
  | some previous =>
    simp only [detach_eq]
    exact g.bare_rewire previous _ _ (InputSlot.unlinked_without previous.id) fun _ => rfl

theorem bare_insertLink (g : Graph) (link : Link) : (g.insertLink link).bare = g.bare := by
  rw [insertLink_eq]
  refine Eq.trans ?_ (g.bare_release link.id)
  exact (g.release link.id).bare_rewire link _ _ (fun _ => rfl) (OutputSlot.unlinked_attachOnce link.id)

theorem bare_removeLink (g : Graph) (id : LinkId) : (g.removeLink id).bare = g.bare := by
  rw [removeLink_eq]
  exact g.bare_release id

theorem bare_foldl {α : Type} (step : Graph → α → Graph) (kept : ∀ g x, (step g x).bare = g.bare) (xs : List α)
    (g : Graph) : (xs.foldl step g).bare = g.bare := by
  induction xs generalizing g with
  | nil => rfl
  | cons x rest ih => rw [List.foldl_cons, ih, kept]

theorem bare_removeNode (g : Graph) (id : NodeId) : (g.removeNode id).bare = g.bare.filter (·.id ≠ id) := by
  have cleared := bare_foldl removeLink bare_removeLink ((g.links.filter (touches id)).map (·.id)) g
  rw [bare] at cleared
  rw [← cleared, bare, removeNode, List.filter_map]
  rfl

theorem bare_node?_removeNode (g : Graph) {removed id : NodeId} (apart : id ≠ removed) :
    ((g.removeNode removed).node? id).map (·.unlinked) = (g.node? id).map (·.unlinked) := by
  have same : (fun node : Node => decide (decide (node.id ≠ removed) = true ∧ (node.id == id) = true)) =
      fun node => node.id == id := by
    funext node
    by_cases there : node.id = id <;> simp [there, apart]
  rw [bare_node?, bare_removeNode, List.find?_filter, same, ← bare_node?]

/-! ### Inserting nodes under ids that may be in use -/

theorem find?_overwrite (node : Node) (nodes : List Node) (id : NodeId) :
    (overwrite node nodes).find? (·.id == id) =
      if node.id = id then (nodes.find? (·.id == id)).map fun _ => node else nodes.find? (·.id == id) := by
  have same : ((fun other : Node => other.id == id) ∘ fun other => if other.id = node.id then node else other) =
      fun other => other.id == id := by
    funext other
    by_cases here : other.id = node.id <;> simp [here]
  rw [overwrite, List.find?_map, same]
  cases found : nodes.find? (·.id == id) with
  | none => simp
  | some other =>
    have otherId : other.id = id := by simpa using List.find?_some found
    by_cases here : node.id = id
    · simp [here, otherId]
    · simp [here, otherId, Ne.symm here]

theorem find?_foldl_overwrite (new nodes : List Node) (distinct : (new.map (·.id)).Nodup) (id : NodeId) :
    (new.foldl (fun all node => overwrite node all) nodes).find? (·.id == id) =
      match new.find? (·.id == id) with
      | some node => (nodes.find? (·.id == id)).map fun _ => node
      | none => nodes.find? (·.id == id) := by
  induction new generalizing nodes with
  | nil => rfl
  | cons node rest ih =>
    rw [List.map_cons, List.nodup_cons] at distinct
    rw [List.foldl_cons, ih _ distinct.2, find?_overwrite]
    by_cases here : node.id = id
    · have none : rest.find? (·.id == id) = none := by
        rw [List.find?_eq_none]
        intro other member same
        apply distinct.1
        rw [here, ← eq_of_beq same]
        exact List.mem_map_of_mem member
      simp [here, none]
    · simp [here]

theorem node?_insertNodes (g : Graph) (position : Nat) (new : List Node) (distinct : (new.map (·.id)).Nodup)
    (id : NodeId) : (g.insertNodes position new).node? id = (new.find? (·.id == id)).or (g.node? id) := by
  refine (find?_foldl_overwrite new _ distinct id).trans ?_
  rw [List.find?_append, List.find?_append]
  cases found : new.find? (·.id == id) with
  | none =>
    have split := congrArg (List.find? (·.id == id)) (List.take_append_drop position g.nodes)
    rw [List.find?_append] at split
    simp only [Option.none_or, Option.or_none]
    exact split
  | some node =>
    cases (g.nodes.take position).find? (·.id == id) <;> rfl

end Graph
end Patchbay
