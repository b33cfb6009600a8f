import Patchbay.Proofs.Prompt.Idle

/-!
A muted node is as good as absent: where a walk to it gives up, the walk after its removal finds an empty slot.
-/
set_option autoImplicit false

namespace Patchbay
namespace Graph

section Removed

variable {g : Graph} (wired : g.Wired) {gone : NodeId}

include wired in
-- What is left at the other nodes are the links that did not come from the node.
theorem incoming?_removeNode {id : NodeId} (apart : id ≠ gone) (slot : Nat) :
    (g.removeNode gone).incoming? id slot = (g.incoming? id slot).filter (·.origin ≠ gone) := by
  ext link
  rw [(wired.removeNode gone).incoming?_eq_some_iff, Option.filter_eq_some_iff, wired.incoming?_eq_some_iff,
    wired.mem_removeNode, touches_eq_false_iff, isSome_inputAt?_congr (g.bare_node?_removeNode apart), decide_eq_true_eq]
  constructor
  · rintro ⟨slot, ⟨member, origin, _⟩, enters⟩
    exact ⟨⟨slot, member, enters⟩, origin⟩
  · rintro ⟨⟨slot, member, enters⟩, origin⟩
    exact ⟨slot, ⟨member, origin, fun same => apart (enters.1.symm.trans same)⟩, enters⟩

theorem node?_removeNode_self (g : Graph) (gone : NodeId) : (g.removeNode gone).node? gone = none := by
  rw [← Option.map_eq_none_iff (f := (·.unlinked)), bare_node?, bare_removeNode, List.find?_filter, List.find?_eq_none]
  simp

theorem nodeIds_removeNode (g : Graph) (gone : NodeId) :
    (g.removeNode gone).nodeIds = g.nodeIds.filter (· ≠ gone) := by
  rw [nodeIds_eq_roster, roster_removeNode, nodeIds_eq_roster, List.filter_map]
  rfl

variable {r : Registry} (muted : ∀ node, g.node? gone = some node → r.participation node = .muted)

include muted in
theorem follow_muted {link : Link} (origin : link.origin = gone) (type : String) (unvisited : List NodeId) :
    g.follow r type unvisited link = none := by
  rw [follow_eq, origin]
  cases found : g.node? gone with
  | none => rfl
  | some node => simp [Node.passedInput?, muted node found]

include wired muted in
/-- The walks keep in step: where one comes to the muted node, the other has no link to follow. -/
theorem follow_removeNode (type : String) (unvisited left : List NodeId)
    (same : ∀ id, id ≠ gone → (id ∈ left ↔ id ∈ unvisited)) (link : Link) :
    ((some link).filter (·.origin ≠ gone)).bind ((g.removeNode gone).follow r type left) =
      g.follow r type unvisited link := by
  by_cases apart : link.origin = gone
  · simp [apart, follow_muted muted apart]
  · have kept : (some link).filter (·.origin ≠ gone) = some link := by simp [apart]
    have fed : ∀ slot, (g.removeNode gone).incoming? link.origin slot =
        (g.incoming? link.origin slot).bind fun next => (some next).filter (·.origin ≠ gone) := by
      intro slot
      rw [incoming?_removeNode wired apart]
      cases g.incoming? link.origin slot <;> rfl
    rw [kept, Option.bind_some]
    refine follow_step (g.bare_node?_removeNode apart).symm fed (same _ apart) fun unseen slot next _ => ?_
    exact follow_removeNode type _ _ (fun id other => without_congr (same id other) link.origin) next
termination_by unvisited.length
decreasing_by exact length_without_lt unseen

include wired muted in
theorem resolveInput_removeNode {id : NodeId} (apart : id ≠ gone) (slot : Nat) :
    (g.removeNode gone).resolveInput r id slot = g.resolveInput r id slot := by
  refine resolveInput_congr (g.bare_node?_removeNode apart) fun type => ?_
  have same : ∀ other, other ≠ gone → (other ∈ (g.removeNode gone).nodeIds ↔ other ∈ g.nodeIds) := by
    intro other left
    simp [nodeIds_removeNode, left]
  rw [incoming?_removeNode wired apart]
  cases g.incoming? id slot with
  | none => rfl
  | some link => exact follow_removeNode wired muted type g.nodeIds _ same link

end Removed

/-- Removing a muted node leaves the prompt as it was, for any order. Where no two nodes are displayed alike, either
order may be any one that holds all nodes of its graph. -/
theorem serialize_removeNode (g : Graph) (wired : g.Wired) (defs : Definitions) (node : Node) (member : node ∈ g.nodes)
    (real : defs.registry.virtualKind? node.type = none) (muted : node.mode = .muted) :
    (∀ order, (g.removeNode node.id).serialize defs order = g.serialize defs order) ∧
      ((g.nodeIds.map NodeId.display).Nodup → ∀ order other, (∀ id ∈ g.nodeIds, id ∈ order) →
        (∀ id ∈ (g.removeNode node.id).nodeIds, id ∈ other) →
          (g.removeNode node.id).serialize defs other = g.serialize defs order) := by
  have role : defs.registry.participation node = .muted := by
    have unknown : defs.registry.virtualNodes.contains node.type = false := Option.isSome_eq_false_iff.2
      (Option.isNone_iff_eq_none.2 real)
    rw [Registry.participation, unknown, muted]
    rfl
  have silent : ∀ found, g.node? node.id = some found → defs.registry.participation found = .muted := by
    intro found there
    rw [(node?_eq_some_iff wired.nodeIds node.id node).2 ⟨member, rfl⟩] at there
    exact Option.some.inj there ▸ role
  have beside : Beside defs.registry node.id (g.removeNode node.id) g := by
    refine ⟨fun id apart => g.bare_node?_removeNode apart, fun found there => ?_, fun found there => ?_⟩
    · rw [node?_removeNode_self] at there
      cases there
    · rw [silent found there]
      exact Participation.noConfusion
  have same := beside.serialize fun id apart slot => resolveInput_removeNode wired silent apart slot
  have fewer : (g.removeNode node.id).nodeIds.Sublist g.nodeIds := by
    rw [nodeIds_removeNode]
    exact List.filter_sublist
  refine ⟨same, fun displays order other all allOther => ?_⟩
  rw [← same order]
  exact serialize_of_covering (displays.sublist (fewer.map _)) defs allOther fun id inside => all id (fewer.subset inside)

-- Both inputs of the last node come from the muted one, through a reroute and through a bypassed node, and its own
-- output goes back there.
def mutedNode : Node :=
  { Node.plain (.number 2) "Blur" with
    mode := .muted
    inputs := [{ InputSlot.plain "image" "IMAGE" with link := some 1 }, { InputSlot.plain "mask" "IMAGE" with link := some 6 }]
    outputs := [{ OutputSlot.plain "image" "IMAGE" with links := some [2] },
      { OutputSlot.plain "amount" "INT" with links := some [5] }] }

def mutedGraph : Graph where
  nodes := [
    { Node.plain (.number 1) "Loader" with outputs := [{ OutputSlot.plain "image" "IMAGE" with links := some [1] }] },
    mutedNode,
    { Node.plain (.number 3) "Reroute" with
      inputs := [{ InputSlot.plain "" "*" with link := some 2 }]
      outputs := [{ OutputSlot.plain "" "*" with links := some [3] }] },
    { Node.plain (.number 5) "Halve" with
      mode := .bypassed
      inputs := [{ InputSlot.plain "amount" "INT" with link := some 5 }]
      outputs := [{ OutputSlot.plain "amount" "INT" with links := some [4] }] },
    { Node.plain (.number 4) "Blur" with
      inputs := [{ InputSlot.plain "image" "IMAGE" with link := some 3 }, { InputSlot.plain "amount" "INT" with link := some 4 }]
      outputs := [{ OutputSlot.plain "image" "IMAGE" with links := some [6] }]
      widgets := some [.ofNat 7] }]
  links := [⟨1, .number 1, 0, .number 2, 0, "IMAGE"⟩, ⟨2, .number 2, 0, .number 3, 0, "IMAGE"⟩,
    ⟨3, .number 3, 0, .number 4, 0, "IMAGE"⟩, ⟨4, .number 5, 0, .number 4, 1, "INT"⟩,
    ⟨5, .number 2, 1, .number 5, 0, "INT"⟩, ⟨6, .number 4, 0, .number 2, 1, "IMAGE"⟩]
  nextLinkId := 7

theorem serialize_removeNode_tangled :
    mutedGraph.Wired ∧ mutedNode ∈ mutedGraph.nodes ∧ blurDefinitions.registry.virtualKind? mutedNode.type = none ∧
      mutedNode.mode = .muted ∧ (mutedGraph.nodeIds.map NodeId.display).Nodup ∧
      (mutedGraph.removeNode mutedNode.id).serialize blurDefinitions [.number 5, .number 4, .number 3, .number 1] =
        mutedGraph.serialize blurDefinitions mutedGraph.nodeIds ∧
      ((mutedGraph.serialize blurDefinitions mutedGraph.nodeIds).get? "4").map (·.inputs.entries) =
        some [("amount", .literal (.ofNat 7))] := by
  have wired : mutedGraph.Wired := by decide +kernel
  have member : mutedNode ∈ mutedGraph.nodes := by decide +kernel
  have real : blurDefinitions.registry.virtualKind? mutedNode.type = none := by decide +kernel
  have displays : (mutedGraph.nodeIds.map NodeId.display).Nodup := by decide +kernel
  refine ⟨wired, member, real, rfl, displays, ?_, by decide +kernel⟩
  exact (serialize_removeNode mutedGraph wired blurDefinitions mutedNode member real rfl).2 displays _ _
    (fun _ inside => inside) (by decide +kernel)

end Graph
end Patchbay
