import Patchbay.Proofs.Graph.Edits

/-!
A link put into an input that another one holds. The input goes over to the new link, while the other one stays in
the table and at its origin; as soon as that one is taken out, before or after, the graph is wired again.
-/
set_option autoImplicit false

namespace Patchbay

theorem modify_modify_comm {α : Type} {f g : α → α} (commute : ∀ x, f (g x) = g (f x)) (xs : List α) (i j : Nat) :
    (xs.modify i f).modify j g = (xs.modify j g).modify i f := by
  by_cases same : i = j
  · have composed : g ∘ f = f ∘ g := funext fun x => (commute x).symm
    rw [same, List.modify_modify_eq, List.modify_modify_eq, composed]
  · exact List.modify_modify_ne f g xs same

-- Two changes of a list, each of which may be called for or not.
theorem ite_modify_comm {α : Type} {f g : α → α} (commute : ∀ x, f (g x) = g (f x)) (xs : List α) (i j : Nat)
    (p q : Prop) [Decidable p] [Decidable q] :
    (if q then (if p then xs.modify i f else xs).modify j g else if p then xs.modify i f else xs) =
      if p then (if q then xs.modify j g else xs).modify i f else if q then xs.modify j g else xs := by
  by_cases first : p
  · by_cases second : q <;> simp [first, second, modify_modify_comm commute xs i j]
  · simp [first]

theorem filter_putLink (link : Link) (links : List Link) (id : LinkId) (apart : link.id ≠ id) :
    (putLink link links).filter (·.id ≠ id) = putLink link (links.filter (·.id ≠ id)) := by
  induction links with
  | nil => simp [putLink, apart]
  | cons first rest ih =>
    rw [putLink]
    by_cases same : first.id = link.id
    · simp [same, apart, putLink]
    · rw [if_neg same]
      by_cases gone : first.id = id
      · rw [List.filter_cons_of_neg (by simpa using gone), List.filter_cons_of_neg (by simpa using gone), ih]
      · rw [List.filter_cons_of_pos (by simpa using gone), List.filter_cons_of_pos (by simpa using gone), ih, putLink,
          if_neg same]

/-! ### Changes for different links -/

namespace InputSlot

theorem without_eq (id : LinkId) (slot : InputSlot) :
    slot.without id = { slot with link := slot.link.filter (· ≠ id) } := by
  obtain ⟨name, type, link, widget, extra⟩ := slot
  cases link with
  | none => simp [without]
  | some held => by_cases same : held = id <;> simp [without, unlinked, Option.filter, same]

theorem without_without (a b : LinkId) (slot : InputSlot) : (slot.without a).without b = (slot.without b).without a := by
  simp only [without_eq, Option.filter_filter, Bool.and_comm]

theorem without_holding {a b : LinkId} (apart : a ≠ b) (slot : InputSlot) :
    (slot.without a).holding b = (slot.holding b).without a := by
  simp [without_eq, holding, Option.filter, apart.symm]

end InputSlot

namespace OutputSlot

theorem detach_detach (a b : LinkId) (slot : OutputSlot) : (slot.detach a).detach b = (slot.detach b).detach a := by
  cases links : slot.links with
  | none => simp [detach, links]
  | some ids => simp [detach, links, List.filter_filter, Bool.and_comm]

theorem detach_attachOnce {a b : LinkId} (apart : a ≠ b) (slot : OutputSlot) :
    (slot.detach a).attachOnce b = (slot.attachOnce b).detach a := by
  have kept : (slot.detach a).linkIds.contains b = slot.linkIds.contains b := by
    rw [linkIds_detach]
    simp [apart.symm]
  rw [attachOnce, kept, attachOnce]
  by_cases held : slot.linkIds.contains b
  · rw [if_pos held, if_pos held]
  · rw [if_neg held, if_neg held]
    simp only [attach, linkIds_detach]
    simp [detach, linkIds, List.filter_append, apart.symm]

end OutputSlot

namespace Node

theorem rewire_rewire (a b : Link) {input input' : InputSlot → InputSlot} {output output' : OutputSlot → OutputSlot}
    (inputs : ∀ slot, input (input' slot) = input' (input slot))
    (outputs : ∀ slot, output (output' slot) = output' (output slot)) (node : Node) :
    (node.rewire a input output).rewire b input' output' = (node.rewire b input' output').rewire a input output := by
  have sameInputs := ite_modify_comm inputs node.inputs a.targetSlot.toNat b.targetSlot.toNat
    (node.id = a.target) (node.id = b.target)
  have sameOutputs := ite_modify_comm outputs node.outputs a.originSlot.toNat b.originSlot.toNat
    (node.id = a.origin) (node.id = b.origin)
  simp only [rewire]
  congr 1

-- The node without a link, if there is one to take out.
def unhung (previous : Option Link) (node : Node) : Node :=
  match previous with
  | some link => node.rewire link (.without link.id) (·.detach link.id)
  | none => node

theorem unhung_unhung (a b : Option Link) (node : Node) : (node.unhung a).unhung b = (node.unhung b).unhung a := by
  cases a with
  | none => rfl
  | some first =>
    cases b with
    | none => rfl
    | some second =>
      exact node.rewire_rewire first second (InputSlot.without_without second.id first.id)
        (OutputSlot.detach_detach second.id first.id)

theorem unhung_rewire {previous : Option Link} {link : Link} (apart : ∀ other ∈ previous, other.id ≠ link.id)
    (node : Node) : (node.unhung previous).rewire link (.holding link.id) (.attachOnce link.id) =
      (node.rewire link (.holding link.id) (.attachOnce link.id)).unhung previous := by
  cases previous with
  | none => rfl
  | some other =>
    have differ := apart other rfl
    exact node.rewire_rewire other link (fun slot => (InputSlot.without_holding differ slot).symm)
      fun slot => (OutputSlot.detach_attachOnce differ slot).symm

end Node

namespace Graph

theorem nodes_release (g : Graph) (id : LinkId) : (g.release id).nodes = g.nodes.map (·.unhung (g.link? id)) := by
  rw [release]
  cases g.link? id with
  | none => exact (List.map_id g.nodes).symm
  | some previous =>
    simp only [detach_eq]
    rfl

theorem nodes_removeLink (g : Graph) (id : LinkId) :
    (g.removeLink id).nodes = g.nodes.map (·.unhung (g.link? id)) := by
  rw [removeLink_eq]
  exact g.nodes_release id

theorem nodes_insertLink (g : Graph) (link : Link) : (g.insertLink link).nodes = g.nodes.map fun node =>
    (node.unhung (g.link? link.id)).rewire link (.holding link.id) (.attachOnce link.id) := by
  rw [insertLink_eq]
  simp only [rewire, nodes_release, List.map_map]
  rfl

theorem link?_insertLink (g : Graph) (link : Link) {id : LinkId} (apart : link.id ≠ id) :
    (g.insertLink link).link? id = g.link? id := by
  rw [insertLink_eq]
  exact (find?_putLink link g.links id).trans (if_neg apart)

theorem link?_removeLink (g : Graph) {id other : LinkId} (apart : other ≠ id) :
    (g.removeLink id).link? other = g.link? other := by
  rw [removeLink_eq]
  simp only [link?, List.find?_filter]
  congr 1
  funext link
  by_cases same : link.id = other <;> simp [same, apart]

theorem removeLink_insertLink (g : Graph) (link : Link) {id : LinkId} (apart : link.id ≠ id) :
    (g.insertLink link).removeLink id = (g.removeLink id).insertLink link := by
  have nodes : ((g.insertLink link).removeLink id).nodes = ((g.removeLink id).insertLink link).nodes := by
    rw [nodes_removeLink, nodes_insertLink, nodes_insertLink, nodes_removeLink, link?_insertLink g link apart,
      link?_removeLink g apart, List.map_map, List.map_map]
    apply List.map_congr_left
    intro node _
    have others : ∀ other ∈ g.link? id, other.id ≠ link.id :=
      fun other found same => apart (same.symm.trans (id_of_link? found))
    simp only [Function.comp]
    rw [← Node.unhung_rewire others, Node.unhung_unhung]
  have links : ((g.insertLink link).removeLink id).links = ((g.removeLink id).insertLink link).links := by
    rw [removeLink_eq, insertLink_eq, insertLink_eq, removeLink_eq]
    exact filter_putLink link g.links id apart
  have next : ((g.insertLink link).removeLink id).nextLinkId = ((g.removeLink id).insertLink link).nextLinkId := by
    rw [nextLinkId_removeLink, nextLinkId_insertLink, nextLinkId_insertLink, nextLinkId_removeLink]
  calc (g.insertLink link).removeLink id
      = ⟨((g.insertLink link).removeLink id).nodes, ((g.insertLink link).removeLink id).links,
          ((g.insertLink link).removeLink id).nextLinkId⟩ := rfl
    _ = (g.removeLink id).insertLink link := by rw [nodes, links, next]

/-! ### A link that is displaced -/

section Displaced

variable {g : Graph} (wired : g.Wired) {link : Link}

include wired in
theorem Wired.insertLink_wired_iff : (g.insertLink link).Wired ↔ g.OpenFor link := by
  constructor
  · intro after input found
    cases held : input.link with
    | none => exact .inl rfl
    | some id =>
      right
      obtain ⟨other, member, rfl, enters⟩ := (wired.inputs _ _ input found id).1 held
      by_contra apart
      have differ : other.id ≠ link.id := fun same => apart (congrArg some same)
      -- The table says that the slot is fed by the other link, and the slot does not.
      have there := wired.inputAt?_insertLink link link.target link.targetSlot.toNat
      rw [found, Option.map_some, if_pos ⟨rfl, rfl⟩] at there
      have still := (wired.mem_insertLink link other).2 (.inr ⟨member, differ⟩)
      have both := (after.inputs _ _ _ there other.id).2 ⟨other, still, rfl, enters⟩
      exact differ (Option.some.inj both).symm
  · intro slot
    exact wired.insertLink link (wired.clearFor_of_openFor slot)

variable {other : Link} (member : other ∈ g.links) (apart : other.id ≠ link.id)

include wired member apart in
theorem Wired.listed_insertLink {output : OutputSlot}
    (found : (g.insertLink link).outputAt? other.origin other.originSlot.toNat = some output) :
    other.id ∈ output.linkIds := by
  rw [wired.outputAt?_insertLink] at found
  obtain ⟨old, there, rfl⟩ := Option.map_eq_some_iff.1 found
  have listed := ((wired.outputs _ _ old there).2 other.id).2 ⟨other, member, rfl, rfl, rfl⟩
  by_cases leaves : link.leavesAt other.origin other.originSlot.toNat
  · rw [if_pos leaves, linkIds_attachOnce_detach, ← OutputSlot.linkIds_detach]
    exact List.mem_append_left _ ((mem_detach old link.id other.id).2 ⟨listed, apart⟩)
  · rw [if_neg leaves]
    exact (mem_detach old link.id other.id).2 ⟨listed, apart⟩

include wired in
theorem Wired.removeLink_insertLink_wired {id : LinkId} {input : InputSlot}
    (found : g.inputAt? link.target link.targetSlot.toNat = some input) (held : input.link = some id) :
    ((g.removeLink id).insertLink link).Wired := by
  refine (wired.removeLink id).insertLink_wired_iff.2 fun after there => .inl ?_
  rw [removeLink_eq] at there
  have before := (wired.inputAt?_release id link.target link.targetSlot.toNat).symm.trans there
  rw [found, Option.map_some, Option.some.injEq] at before
  rw [← before, InputSlot.without, if_pos held]
  rfl

end Displaced

/-- A graph stays wired exactly if the input is open for the link. Where another link holds it, that one is left in
the table and at its origin, and nothing else is wrong. -/
theorem insertLink_displaces {g : Graph} (wired : g.Wired) (link : Link) :
    ((g.insertLink link).Wired ↔ g.OpenFor link) ∧
      ∀ other ∈ g.links, other.id ≠ link.id →
        ∀ input, g.inputAt? link.target link.targetSlot.toNat = some input → input.link = some other.id →
          other ∈ (g.insertLink link).links ∧
          (g.insertLink link).inputAt? link.target link.targetSlot.toNat = some (input.holding link.id) ∧
          (∀ output, (g.insertLink link).outputAt? other.origin other.originSlot.toNat = some output →
            other.id ∈ output.linkIds) ∧
          (g.insertLink link).removeLink other.id = (g.removeLink other.id).insertLink link ∧
          ((g.insertLink link).removeLink other.id).Wired := by
  refine ⟨wired.insertLink_wired_iff, fun other member apart input found held => ⟨?_, ?_, ?_, ?_, ?_⟩⟩
  · exact (wired.mem_insertLink link other).2 (.inr ⟨member, apart⟩)
  · have kept : input.without link.id = input := by
      rw [InputSlot.without, if_neg]
      rw [held]
      exact fun same => apart (Option.some.inj same)
    rw [wired.inputAt?_insertLink, found, Option.map_some, if_pos ⟨rfl, rfl⟩, kept]
  · exact fun output there => wired.listed_insertLink member apart there
  · exact g.removeLink_insertLink link apart.symm
  · rw [g.removeLink_insertLink link apart.symm]
    exact wired.removeLink_insertLink_wired found held

-- The input of the last node holds the link of the first one, and the second one is to feed it as well.
def rivals : Graph where
  nodes := [
    { Node.plain (.number 1) "Load" with outputs := [{ OutputSlot.plain "IMAGE" "IMAGE" with links := some [1] }] },
    { Node.plain (.number 2) "Load" with outputs := [.plain "IMAGE" "IMAGE"] },
    { Node.plain (.number 3) "Save" with inputs := [{ InputSlot.plain "image" "IMAGE" with link := some 1 }] }]
  links := [⟨1, .number 1, 0, .number 3, 0, "IMAGE"⟩]
  nextLinkId := 2

def rival : Link := ⟨2, .number 2, 0, .number 3, 0, "IMAGE"⟩

theorem insertLink_displaces_rivals :
    rivals.Wired ∧ ¬ rivals.OpenFor rival ∧ (rivals.insertLink rival).links.map (·.id) = [1, 2] ∧
      ((rivals.insertLink rival).removeLink 1).Wired ∧ ((rivals.removeLink 1).insertLink rival).Wired := by
  have wired : rivals.Wired := by decide +kernel
  obtain ⟨_, displaced⟩ := insertLink_displaces wired rival
  obtain ⟨_, _, _, same, repaired⟩ :=
    displaced ⟨1, .number 1, 0, .number 3, 0, "IMAGE"⟩ (by decide) (by decide) _ rfl rfl
  exact ⟨wired, by decide +kernel, by decide +kernel, repaired, same ▸ repaired⟩

theorem insertLink_not_wired :
    rivals.Wired ∧ (rivals.inputAt? rival.target rival.targetSlot.toNat).map (·.link) = some (some 1) ∧
      ¬ (rivals.insertLink rival).Wired ∧
        ⟨1, .number 1, 0, .number 3, 0, "IMAGE"⟩ ∈ (rivals.insertLink rival).links ∧
          ((rivals.insertLink rival).outputAt? (.number 1) 0).map (·.linkIds) = some [1] := by
  decide +kernel

end Graph
end Patchbay
