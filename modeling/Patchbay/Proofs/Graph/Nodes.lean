import Patchbay.Proofs.Graph.Wired

/-!
Inserting nodes into a wired graph and removing one. New nodes come without links and under ids that
nothing names yet; a node goes with every link that touches it.
-/
set_option autoImplicit false

namespace Patchbay

theorem find?_eq_some_iff_of_nodup {α κ : Type} [DecidableEq κ] (key : α → κ) {list : List α}
    (distinct : (list.map key).Nodup) (wanted : κ) (x : α) :
    list.find? (key · == wanted) = some x ↔ x ∈ list ∧ key x = wanted := by
  constructor
  · intro here
    exact ⟨List.mem_of_find?_eq_some here, by simpa using List.find?_some here⟩
  · rintro ⟨member, rfl⟩
    have some : (list.find? (key · == key x)).isSome := List.find?_isSome.2 ⟨x, member, beq_self_eq_true (key x)⟩
    obtain ⟨y, here⟩ := Option.isSome_iff_exists.1 some
    have same := List.inj_on_of_nodup_map distinct (List.mem_of_find?_eq_some here) member
      (by simpa using List.find?_some here)
    rw [here, same]

namespace Graph

theorem node?_eq_some_iff {g : Graph} (distinct : g.nodeIds.Nodup) (id : NodeId) (node : Node) :
    g.node? id = some node ↔ node ∈ g.nodes ∧ node.id = id :=
  find?_eq_some_iff_of_nodup Node.id distinct id node

theorem mem_nodeIds_iff (g : Graph) (id : NodeId) : id ∈ g.nodeIds ↔ (g.node? id).isSome := by
  rw [nodeIds, node?, List.find?_isSome, List.mem_map]
  simp only [beq_iff_eq]

theorem bind_node?_eq_some_iff {α : Type} {g : Graph} (distinct : g.nodeIds.Nodup) (id : NodeId)
    (view : Node → Option α) (seen : α) :
    (g.node? id).bind view = some seen ↔ ∃ node ∈ g.nodes, node.id = id ∧ view node = some seen := by
  rw [Option.bind_eq_some_iff]
  constructor
  · rintro ⟨node, found, place⟩
    obtain ⟨member, same⟩ := (node?_eq_some_iff distinct id node).1 found
    exact ⟨node, member, same, place⟩
  · rintro ⟨node, member, same, place⟩
    exact ⟨node, (node?_eq_some_iff distinct id node).2 ⟨member, same⟩, place⟩

theorem inputAt?_eq_some_iff {g : Graph} (distinct : g.nodeIds.Nodup) (id : NodeId) (slot : Nat)
    (input : InputSlot) :
    g.inputAt? id slot = some input ↔ ∃ node ∈ g.nodes, node.id = id ∧ node.inputs[slot]? = some input :=
  bind_node?_eq_some_iff distinct id (·.inputs[slot]?) input

theorem outputAt?_eq_some_iff {g : Graph} (distinct : g.nodeIds.Nodup) (id : NodeId) (slot : Nat)
    (output : OutputSlot) :
    g.outputAt? id slot = some output ↔ ∃ node ∈ g.nodes, node.id = id ∧ node.outputs[slot]? = some output :=
  bind_node?_eq_some_iff distinct id (·.outputs[slot]?) output

/-! ### Checking the slots one by one -/

-- What a slot holds are the ids of the links there, in whichever order.
theorem ids_perm_iff {links : List Link} (distinct : (links.map (·.id)).Nodup) (ids : List LinkId) (there : Link → Prop)
    [DecidablePred there] : ids.Perm ((links.filter there).map (·.id)) ↔
      ids.Nodup ∧ ∀ held, held ∈ ids ↔ ∃ link ∈ links, link.id = held ∧ there link := by
  have some : ((links.filter there).map (·.id)).Nodup := distinct.sublist (List.filter_sublist.map _)
  have members : ∀ held, held ∈ (links.filter there).map (·.id) ↔ ∃ link ∈ links, link.id = held ∧ there link := by
    intro held
    simp only [List.mem_map, List.mem_filter, decide_eq_true_eq]
    constructor
    · rintro ⟨link, ⟨member, here⟩, same⟩
      exact ⟨link, member, same, here⟩
    · rintro ⟨link, member, same, here⟩
      exact ⟨link, ⟨member, here⟩, same⟩
  constructor
  · intro perm
    refine ⟨perm.nodup_iff.2 some, fun held => ?_⟩
    rw [perm.mem_iff, members]
  · rintro ⟨nodup, holds⟩
    refine (List.perm_ext_iff_of_nodup nodup some).2 fun held => ?_
    rw [holds, members]

theorem wired_iff (g : Graph) : g.Wired ↔ g.nodeIds.Nodup ∧ (g.links.map (·.id)).Nodup ∧
    ∀ node ∈ g.nodes,
      (∀ entry ∈ node.inputs.zipIdx,
        entry.1.link.toList.Perm ((g.links.filter (·.entersAt node.id entry.2)).map (·.id))) ∧
      ∀ entry ∈ node.outputs.zipIdx,
        entry.1.linkIds.Perm ((g.links.filter (·.leavesAt node.id entry.2)).map (·.id)) := by
  constructor
  · intro wired
    refine ⟨wired.nodeIds, wired.linkIds, fun node member => ⟨?_, ?_⟩⟩
    · rintro ⟨input, slot⟩ inside
      have found := (inputAt?_eq_some_iff wired.nodeIds node.id slot input).2
        ⟨node, member, rfl, List.mk_mem_zipIdx_iff_getElem?.1 inside⟩
      rw [ids_perm_iff wired.linkIds]
      refine ⟨input.link.toList_nodup, fun held => ?_⟩
      rw [Option.mem_toList]
      exact wired.inputs node.id slot input found held
    · rintro ⟨output, slot⟩ inside
      have found := (outputAt?_eq_some_iff wired.nodeIds node.id slot output).2
        ⟨node, member, rfl, List.mk_mem_zipIdx_iff_getElem?.1 inside⟩
      rw [ids_perm_iff wired.linkIds]
      exact wired.outputs node.id slot output found
  · rintro ⟨nodeIds, linkIds, slots⟩
    refine ⟨nodeIds, linkIds, ?_, ?_⟩
    · intro id slot input found held
      obtain ⟨node, member, rfl, there⟩ := (inputAt?_eq_some_iff nodeIds id slot input).1 found
      have perm := (slots node member).1 (input, slot) (List.mk_mem_zipIdx_iff_getElem?.2 there)
      have holds := ((ids_perm_iff linkIds _ _).1 perm).2 held
      rw [Option.mem_toList] at holds
      exact holds
    · intro id slot output found
      obtain ⟨node, member, rfl, there⟩ := (outputAt?_eq_some_iff nodeIds id slot output).1 found
      have perm := (slots node member).2 (output, slot) (List.mk_mem_zipIdx_iff_getElem?.2 there)
      exact (ids_perm_iff linkIds _ _).1 perm

instance (g : Graph) : Decidable g.Wired := decidable_of_iff _ g.wired_iff.symm

/-! ### Inserting nodes -/

-- Nodes that can be inserted: without links, and under ids of their own.
structure Fresh (g : Graph) (nodes : List Node) : Prop where
  distinct : (nodes.map (·.id)).Nodup
  absent : ∀ node ∈ nodes, node.id ∉ g.nodeIds
  unnamed : ∀ node ∈ nodes, ∀ link ∈ g.links, touches node.id link = false
  inputs : ∀ node ∈ nodes, ∀ input ∈ node.inputs, input.link = none
  outputs : ∀ node ∈ nodes, ∀ output ∈ node.outputs, output.linkIds = []

theorem touches_eq_false_iff (id : NodeId) (link : Link) :
    touches id link = false ↔ link.origin ≠ id ∧ link.target ≠ id := by
  simp [touches]

def spliced (g : Graph) (position : Nat) (nodes : List Node) : List Node :=
  g.nodes.take position ++ nodes ++ g.nodes.drop position

theorem spliced_perm (g : Graph) (position : Nat) (nodes : List Node) :
    (g.spliced position nodes).Perm (nodes ++ g.nodes) := by
  have front : (g.nodes.take position ++ nodes).Perm (nodes ++ g.nodes.take position) := List.perm_append_comm
  have all := front.append_right (g.nodes.drop position)
  rw [List.append_assoc nodes, List.take_append_drop] at all
  exact all

section Insert

variable {g : Graph} {nodes : List Node} (fresh : g.Fresh nodes) (position : Nat)

include fresh in
theorem Fresh.spliced_distinct (distinct : g.nodeIds.Nodup) : ((g.spliced position nodes).map (·.id)).Nodup := by
  rw [((g.spliced_perm position nodes).map (·.id)).nodup_iff, List.map_append, List.nodup_append]
  refine ⟨fresh.distinct, distinct, ?_⟩
  intro a memberA b memberB same
  obtain ⟨node, member, rfl⟩ := List.mem_map.1 memberA
  rw [same] at memberA
  exact fresh.absent node member (same ▸ memberB)

include fresh in
theorem Fresh.insertNodes_eq (distinct : g.nodeIds.Nodup) :
    g.insertNodes position nodes = { g with nodes := g.spliced position nodes } := by
  have ids := fresh.spliced_distinct position distinct
  have kept : ∀ some : List Node, (∀ node ∈ some, node ∈ g.spliced position nodes) →
      some.foldl (fun all node => overwrite node all) (g.spliced position nodes) = g.spliced position nodes := by
    intro some inside
    induction some with
    | nil => rfl
    | cons node rest ih =>
      rw [List.foldl_cons, overwrite_of_mem node _ ids (inside node List.mem_cons_self)]
      exact ih fun later member => inside later (List.mem_cons_of_mem _ member)
  have all := kept nodes fun node member => List.mem_append_left _ (List.mem_append_right _ member)
  rw [insertNodes]
  exact congrArg (fun all => ({ g with nodes := all } : Graph)) all

include fresh in
theorem Wired.insertNodes (wired : g.Wired) : (g.insertNodes position nodes).Wired := by
  have ids : ({ g with nodes := g.spliced position nodes } : Graph).nodeIds.Nodup :=
    fresh.spliced_distinct position wired.nodeIds
  have members : ∀ node, node ∈ g.spliced position nodes ↔ node ∈ nodes ∨ node ∈ g.nodes := by
    intro node
    rw [(g.spliced_perm position nodes).mem_iff, List.mem_append]
  rw [fresh.insertNodes_eq position wired.nodeIds]
  constructor
  · exact ids
  · exact wired.linkIds
  · intro id slot input found held
    obtain ⟨node, member, same, place⟩ := (inputAt?_eq_some_iff ids id slot input).1 found
    rcases (members node).1 member with new | old
    · have unlinked := fresh.inputs node new input (List.mem_of_getElem? place)
      rw [unlinked]
      constructor
      · intro holds
        cases holds
      · rintro ⟨link, inside, _, enters, _⟩
        have apart := (touches_eq_false_iff _ _).1 (fresh.unnamed node new link inside)
        exact absurd (enters.trans same.symm) apart.2
    · have before := (inputAt?_eq_some_iff wired.nodeIds id slot input).2 ⟨node, old, same, place⟩
      exact wired.inputs id slot input before held
  · intro id slot output found
    obtain ⟨node, member, same, place⟩ := (outputAt?_eq_some_iff ids id slot output).1 found
    rcases (members node).1 member with new | old
    · have unlinked := fresh.outputs node new output (List.mem_of_getElem? place)
      rw [unlinked]
      refine ⟨List.nodup_nil, fun held => ?_⟩
      constructor
      · intro holds
        cases holds
      · rintro ⟨link, inside, _, leaves, _⟩
        have apart := (touches_eq_false_iff _ _).1 (fresh.unnamed node new link inside)
        exact absurd (leaves.trans same.symm) apart.1
    · have before := (outputAt?_eq_some_iff wired.nodeIds id slot output).2 ⟨node, old, same, place⟩
      exact wired.outputs id slot output before

end Insert

/-! ### Removing a node -/

theorem mem_foldl_removeLink (ids : List LinkId) (g : Graph) (link : Link) :
    link ∈ (ids.foldl removeLink g).links ↔ link ∈ g.links ∧ link.id ∉ ids := by
  induction ids generalizing g with
  | nil => simp
  | cons id rest ih =>
    rw [List.foldl_cons, ih, mem_removeLink, List.mem_cons, not_or, and_assoc]

theorem roster_foldl_removeLink (ids : List LinkId) (g : Graph) : (ids.foldl removeLink g).roster = g.roster := by
  induction ids generalizing g with
  | nil => rfl
  | cons id rest ih => rw [List.foldl_cons, ih, roster_removeLink]

theorem nextLinkId_removeLink (g : Graph) (id : LinkId) : (g.removeLink id).nextLinkId = g.nextLinkId := by
  rw [removeLink]
  cases g.link? id <;> rfl

theorem nextLinkId_foldl_removeLink (ids : List LinkId) (g : Graph) :
    (ids.foldl removeLink g).nextLinkId = g.nextLinkId := by
  induction ids generalizing g with
  | nil => rfl
  | cons id rest ih => rw [List.foldl_cons, ih, nextLinkId_removeLink]

theorem Wired.foldl_removeLink (ids : List LinkId) {g : Graph} (wired : g.Wired) :
    (ids.foldl Graph.removeLink g).Wired := by
  induction ids generalizing g with
  | nil => exact wired
  | cons id rest ih =>
    rw [List.foldl_cons]
    exact ih (wired.removeLink id)

theorem Wired.mem_removeNode {g : Graph} (wired : g.Wired) (id : NodeId) (link : Link) :
    link ∈ (g.removeNode id).links ↔ link ∈ g.links ∧ touches id link = false := by
  have links : (g.removeNode id).links = (((g.links.filter (touches id)).map (·.id)).foldl Graph.removeLink g).links :=
    rfl
  rw [links, mem_foldl_removeLink]
  constructor
  · rintro ⟨member, apart⟩
    refine ⟨member, ?_⟩
    by_contra touched
    apply apart
    rw [Bool.not_eq_false] at touched
    exact List.mem_map_of_mem (List.mem_filter.2 ⟨member, touched⟩)
  · rintro ⟨member, apart⟩
    refine ⟨member, fun removed => ?_⟩
    obtain ⟨other, inside, same⟩ := List.mem_map.1 removed
    obtain ⟨otherMember, touched⟩ := List.mem_filter.1 inside
    rw [wired.link_unique otherMember member same, apart] at touched
    cases touched

theorem roster_removeNode (g : Graph) (id : NodeId) :
    (g.removeNode id).roster = g.roster.filter (·.1 ≠ id) := by
  have nodes : (g.removeNode id).nodes =
      (((g.links.filter (touches id)).map (·.id)).foldl removeLink g).nodes.filter (·.id ≠ id) := rfl
  rw [← roster_foldl_removeLink ((g.links.filter (touches id)).map (·.id)) g, roster, nodes, roster, List.filter_map]
  rfl

theorem nextLinkId_removeNode (g : Graph) (id : NodeId) : (g.removeNode id).nextLinkId = g.nextLinkId :=
  nextLinkId_foldl_removeLink _ g

theorem Wired.removeNode {g : Graph} (wired : g.Wired) (id : NodeId) : (g.removeNode id).Wired := by
  have cleared : (((g.links.filter (touches id)).map (·.id)).foldl Graph.removeLink g).Wired :=
    Wired.foldl_removeLink _ wired
  have ids : (g.removeNode id).nodeIds.Nodup := by
    rw [nodeIds_eq_roster, roster_removeNode]
    have all := wired.nodeIds
    rw [nodeIds_eq_roster] at all
    exact all.sublist (List.filter_sublist.map _)
  constructor
  · exact ids
  · exact cleared.linkIds
  · intro x slot input found held
    obtain ⟨node, member, same, place⟩ := (inputAt?_eq_some_iff ids x slot input).1 found
    have before := (inputAt?_eq_some_iff cleared.nodeIds x slot input).2
      ⟨node, (List.mem_filter.1 member).1, same, place⟩
    exact cleared.inputs x slot input before held
  · intro x slot output found
    obtain ⟨node, member, same, place⟩ := (outputAt?_eq_some_iff ids x slot output).1 found
    have before := (outputAt?_eq_some_iff cleared.nodeIds x slot output).2
      ⟨node, (List.mem_filter.1 member).1, same, place⟩
    exact cleared.outputs x slot output before

end Graph
end Patchbay
