import Patchbay.Proofs.Graph.Bare
import Patchbay.Proofs.Group.Members

/-!
What a replaced instance leaves behind in any graph, wired or not: its members under their own ids, and
the other nodes as they were but for their links.
-/
set_option autoImplicit false

namespace Patchbay
namespace Graph

section Links

variable (defs : Definitions) (group : GroupDef) (place : NodeId)

theorem bare_addInnerLink (config : GroupConfig) (g : Graph) (inner : GroupLink) :
    (addInnerLink defs config place g inner).bare = g.bare := by
  obtain ⟨origin, slot, type, added⟩ := addInnerLink_eq defs config place g inner
  rw [added]
  by_cases joined : defs.joins config inner
  · rw [if_pos joined]
    exact g.allocate.2.bare_insertLink _
  · rw [if_neg joined]

theorem bare_moveInput (g : Graph) (entry : InputSlot × Nat) :
    (moveInput defs group place g entry).bare = g.bare := by
  rw [moveInput]
  cases entry.1.link.bind g.link? with
  | none => rfl
  | some link =>
    cases (group.exposure.inputTarget? entry.2).filter (defs.places group.config ·.member) with
    | none => exact g.bare_removeLink link.id
    | some inner => exact g.bare_insertLink _

theorem bare_moveOrigin (producer : Option Producer) (g : Graph) (id : LinkId) :
    (moveOrigin producer g id).bare = g.bare := by
  rw [moveOrigin]
  cases g.link? id with
  | none => rfl
  | some link =>
    cases producer with
    | none => exact g.bare_removeLink id
    | some source => exact g.bare_insertLink _

theorem bare_moveOutput (g : Graph) (entry : OutputSlot × Nat) :
    (moveOutput defs group place g entry).bare = g.bare :=
  bare_foldl _ (bare_moveOrigin _) entry.1.linkIds g

end Links

section Expand

variable (g : Graph) (defs : Definitions) (place : Node) (group : GroupDef)

theorem bare_expandInstance : (g.expandInstance defs place group).bare =
    (g.insertNodes ((g.position? place.id).getD g.nodes.length) (group.placedMembers defs place)).bare.filter
      (·.id ≠ place.id) := by
  rw [expandInstance, bare_removeNode]
  rw [bare_foldl _ (bare_moveOutput defs group place.id), bare_foldl _ (bare_moveInput defs group place.id),
    bare_foldl _ (bare_addInnerLink defs place.id group.config)]

theorem bare_find?_expandInstance (id : NodeId) :
    ((g.expandInstance defs place group).node? id).map (·.unlinked) =
      if id = place.id then none
      else (((group.placedMembers defs place).find? (·.id == id)).or (g.node? id)).map (·.unlinked) := by
  have distinct : ((group.placedMembers defs place).map (·.id)).Nodup :=
    (group.placedMembers_displays defs place).of_map _
  by_cases here : id = place.id
  · rw [if_pos here, bare_node?, bare_expandInstance, List.find?_filter, List.find?_eq_none]
    intro node _
    simp [here]
  · rw [if_neg here, ← node?_insertNodes _ _ _ distinct, expandInstance, bare_node?_removeNode _ here, bare_node?,
      bare_foldl _ (bare_moveOutput defs group place.id), bare_foldl _ (bare_moveInput defs group place.id),
      bare_foldl _ (bare_addInnerLink defs place.id group.config), ← bare_node?]

-- What stands in the graph is what stood there, or a member of the instance.
theorem node?_expandInstance {id : NodeId} {node : Node}
    (found : (g.expandInstance defs place group).node? id = some node) :
    id ≠ place.id ∧
      ((∃ k template, (k, template) ∈ defs.knownMembers group.config ∧ id = place.id.member k ∧
          node.type = template.type ∧ node.mode = template.mode) ∨
        ((∀ k template, (k, template) ∈ defs.knownMembers group.config → id ≠ place.id.member k) ∧
          ∃ old, g.node? id = some old ∧ node.type = old.type ∧ node.mode = old.mode)) := by
  have bare := g.bare_find?_expandInstance defs place group id
  rw [found] at bare
  by_cases here : id = place.id
  · rw [if_pos here] at bare
    cases bare
  · rw [if_neg here] at bare
    obtain ⟨kept, source, same⟩ := Option.map_eq_some_iff.1 bare.symm
    have type : kept.type = node.type := (congrArg Node.type same :)
    have mode : kept.mode = node.mode := (congrArg Node.mode same :)
    refine ⟨here, ?_⟩
    rcases Option.or_eq_some_iff.1 source with placed | ⟨absent, old⟩
    · left
      have keptId : kept.id = id := by simpa using List.find?_some placed
      have inside := List.mem_of_find?_eq_some placed
      rw [GroupDef.placedMembers] at inside
      obtain ⟨⟨k, template⟩, known, made⟩ := List.mem_map.1 inside
      change group.placeMember defs place k template = kept at made
      obtain ⟨widgets, shape⟩ := group.placeMember_eq defs place k template
      rw [← made, shape] at keptId type mode
      exact ⟨k, template, known, keptId.symm, type.symm, mode.symm⟩
    · right
      refine ⟨?_, kept, old, type.symm, mode.symm⟩
      rintro k template known rfl
      obtain ⟨widgets, shape⟩ := group.placeMember_eq defs place k template
      have member : group.placeMember defs place k template ∈ group.placedMembers defs place :=
        List.mem_map.2 ⟨(k, template), known, rfl⟩
      have apart := List.find?_eq_none.1 absent _ member
      rw [shape] at apart
      simp at apart

end Expand

end Graph
end Patchbay
