import Patchbay.Proofs.Ordering.Queue
import Patchbay.Proofs.Sequencing.Runtime
import Patchbay.Proofs.Sequencing.Woven

/-!
The chain that a legacy document gets. All of its links are joined, so the links of the runtime document are
the data links and, after them, one link from each node of the flow order to the next.
-/
set_option autoImplicit false

namespace Patchbay

/-! ### The links of a chain -/

theorem chainLinks_origins (next : LinkId) (order : List NodeId) :
    (chainLinks next order).map (fun flow => (flow.origin, flow.originSlot)) = order.dropLast.map (·, 0) := by
  induction order generalizing next with
  | nil => rfl
  | cons origin rest ih =>
    cases rest with
    | nil => rfl
    | cons target rest => rw [chainLinks, List.map_cons, ih, List.dropLast_cons_cons, List.map_cons]

theorem chainLinks_targets (next : LinkId) (order : List NodeId) :
    (chainLinks next order).map (fun flow => (flow.target, flow.targetSlot)) = order.tail.map (·, 0) := by
  induction order generalizing next with
  | nil => rfl
  | cons origin rest ih =>
    cases rest with
    | nil => rfl
    | cons target rest => rw [chainLinks, List.map_cons, ih, List.tail_cons, List.tail_cons, List.map_cons]

theorem slots_of_mem_chainLinks {next : LinkId} {order : List NodeId} {flow : FlowLink}
    (member : flow ∈ chainLinks next order) : flow.originSlot = 0 ∧ flow.targetSlot = 0 := by
  have origin : (flow.origin, flow.originSlot) ∈ order.dropLast.map fun id => (id, (0 : Word)) := by
    rw [← chainLinks_origins next]
    exact List.mem_map_of_mem (f := fun flow : FlowLink => (flow.origin, flow.originSlot)) member
  have target : (flow.target, flow.targetSlot) ∈ order.tail.map fun id => (id, (0 : Word)) := by
    rw [← chainLinks_targets next]
    exact List.mem_map_of_mem (f := fun flow : FlowLink => (flow.target, flow.targetSlot)) member
  obtain ⟨_, _, sameOrigin⟩ := List.mem_map.1 origin
  obtain ⟨_, _, sameTarget⟩ := List.mem_map.1 target
  exact ⟨(congrArg Prod.snd sameOrigin).symm, (congrArg Prod.snd sameTarget).symm⟩

theorem exists_of_mem_chainLinks {next : LinkId} {order : List NodeId} {flow : FlowLink}
    (member : flow ∈ chainLinks next order) :
    ∃ before after, order = before ++ flow.origin :: flow.target :: after := by
  induction order generalizing next with
  | nil => cases member
  | cons origin rest ih =>
    cases rest with
    | nil => cases member
    | cons target rest =>
      rcases List.mem_cons.1 member with rfl | later
      · exact ⟨[], rest, rfl⟩
      · obtain ⟨before, after, same⟩ := ih later
        exact ⟨origin :: before, after, by rw [same, List.cons_append]⟩

theorem isChain_chainLinks (next : LinkId) (order : List NodeId) :
    order.IsChain fun a b => ∃ flow ∈ chainLinks next order, flow.origin = a ∧ flow.target = b := by
  induction order generalizing next with
  | nil => exact .nil
  | cons origin rest ih =>
    cases rest with
    | nil => exact .singleton origin
    | cons target rest =>
      rw [List.isChain_cons_cons]
      refine ⟨⟨_, List.mem_cons_self, rfl, rfl⟩, (ih (next.raise 1)).imp ?_⟩
      exact fun a b ⟨flow, member, ends⟩ => ⟨flow, List.mem_cons_of_mem _ member, ends⟩

-- The ids of a chain are counted up from the first.
theorem chainLinks_ids (next : LinkId) (order : List NodeId) (room : next.toNat + order.length ≤ UInt64.size) :
    (chainLinks next order).map (·.id.toNat) = List.range' next.toNat (order.length - 1) := by
  induction order generalizing next with
  | nil => rfl
  | cons origin rest ih =>
    cases rest with
    | nil => rfl
    | cons target rest =>
      simp only [List.length_cons] at room ih
      have raised : (next.raise 1).toNat = next.toNat + 1 := by
        rw [Word.toNat_raise]
        omega
      rw [chainLinks, List.map_cons, ih (next.raise 1) (by omega), raised]
      rfl

theorem chainLinks_id_lt {next : LinkId} {order : List NodeId} (room : next.toNat + order.length ≤ UInt64.size)
    {flow : FlowLink} (member : flow ∈ chainLinks next order) : next ≤ flow.id ∧ flow.id < Word.top := by
  have number : flow.id.toNat ∈ (chainLinks next order).map (·.id.toNat) :=
    List.mem_map_of_mem (f := fun flow : FlowLink => flow.id.toNat) member
  rw [chainLinks_ids next order room, List.mem_range'_1] at number
  rw [UInt64.le_iff_toNat_le, UInt64.lt_iff_toNat_lt, Word.toNat_top]
  omega

theorem chainLinks_ids_nodup {next : LinkId} {order : List NodeId} (room : next.toNat + order.length ≤ UInt64.size) :
    ((chainLinks next order).map (·.id)).Nodup := by
  apply List.Nodup.of_map UInt64.toNat
  rw [List.map_map]
  change ((chainLinks next order).map (·.id.toNat)).Nodup
  rw [chainLinks_ids next order room]
  exact List.nodup_range'

namespace Document

variable {doc : Document} {r : Registry}

theorem mem_orderCandidates_iff {id : NodeId} :
    id ∈ doc.orderCandidates r ↔ id ∈ doc.nodeIds ∧ id ∉ doc.passThroughIds r := by
  rw [orderCandidates, List.mem_filter, Bool.not_eq_true', ← Bool.not_eq_true, List.contains_iff_mem]

theorem addChain_compactCounts (doc : Document) (r : Registry) :
    (doc.addChain r).nodes.map (fun node => (node.id, node.compactCounts)) =
      (doc.nodes.map (·.withChainSlots r)).map fun node => (node.id, node.compactCounts) := by
  refine linkChain_view (fun node => (node.id, node.compactCounts)) ?_ ?_ _ _
  · intro id node
    cases stored : node.flowOutputs <;>
      simp [Node.compactCounts, Node.compactInputs, Node.compactOutputs, Node.linkFirstFlowOutput, stored]
  · intro id node
    cases stored : node.flowInputs <;>
      simp [Node.compactCounts, Node.compactInputs, Node.compactOutputs, Node.linkFirstFlowInput, stored]

theorem withChainSlots_kept (r : Registry) (node : Node) : (node.withChainSlots r).id = node.id ∧
    (node.withChainSlots r).inputs = node.inputs ∧ (node.withChainSlots r).outputs = node.outputs := by
  unfold Node.withChainSlots
  by_cases through : r.isPassThrough node.type
  · rw [if_pos through]
    exact ⟨rfl, rfl, rfl⟩
  · rw [if_neg through]
    exact ⟨rfl, rfl, rfl⟩

theorem compactShifts_addChain_eq (doc : Document) (r : Registry) : (doc.addChain r).compactShifts =
    shiftsOf (·.compactCounts) (doc.nodes.map (·.withChainSlots r)) := by
  funext id
  have views := findLast?_view (fun node => (node.id, node.compactCounts)) (·.1) (fun _ => rfl)
    (doc.addChain_compactCounts r) id
  have counts := congrArg (Option.map Prod.snd) views
  rw [Option.map_map, Option.map_map] at counts
  exact congrArg (·.getD (0, 0)) counts

theorem compactShifts_addChain {id : NodeId} (member : id ∈ doc.orderCandidates r) :
    (doc.addChain r).compactShifts id = (1, 1) := by
  obtain ⟨inside, other⟩ := mem_orderCandidates_iff.1 member
  obtain ⟨node, nodeMember, same⟩ := List.mem_map.1 inside
  have isSome : (findLast? doc.nodes id).isSome :=
    (findLast?_isSome_iff doc.nodes id).2 (List.any_eq_true.2 ⟨node, nodeMember, beq_iff_eq.2 same⟩)
  obtain ⟨last, found⟩ := Option.isSome_iff_exists.1 isSome
  have stops : r.isPassThrough last.type = false := by
    by_contra through
    refine other (List.mem_map.2 ⟨last, List.mem_filter.2 ⟨mem_of_findLast? found, by simpa using through⟩, ?_⟩)
    exact id_of_findLast? found
  have one : (last.withChainSlots r).compactCounts = (1, 1) := by
    simp [Node.withChainSlots, stops, Node.compactCounts, Node.compactInputs, Node.compactOutputs]
  rw [compactShifts_addChain_eq, shiftsOf, findLast?_map (·.withChainSlots r) (fun node => (withChainSlots_kept r node).1),
    found, Option.map_some, Option.map_some, one]
  rfl

section Chain

variable (distinct : (doc.orderCandidates r).Nodup)
  (room : doc.nextLinkId.toNat + (doc.orderCandidates r).length ≤ UInt64.size)

include distinct in
theorem flowOrder_perm : (doc.flowOrder r).Perm (doc.orderCandidates r) :=
  (doc.flowOrder_placing r distinct).perm distinct

include distinct in
theorem flowOrder_nodup : (doc.flowOrder r).Nodup := (flowOrder_perm distinct).nodup_iff.2 distinct

include distinct room in
theorem flowOrder_room : doc.nextLinkId.toNat + (doc.flowOrder r).length ≤ UInt64.size := by
  rwa [(flowOrder_perm distinct).length_eq]

include distinct in
theorem candidates_of_mem_chain {flow : FlowLink} (member : flow ∈ (doc.addChain r).flowLinkList) :
    flow.origin ∈ doc.orderCandidates r ∧ flow.target ∈ doc.orderCandidates r := by
  obtain ⟨before, after, same⟩ := exists_of_mem_chainLinks member
  constructor <;> apply (flowOrder_perm distinct).subset <;> rw [same] <;> simp

include distinct room in
theorem joinable_addChain : (doc.addChain r).Joinable (doc.addChain r).flowLinkList := by
  have chain : (doc.addChain r).flowLinkList = chainLinks doc.nextLinkId (doc.flowOrder r) := rfl
  constructor
  · intro flow member
    rw [(slots_of_mem_chainLinks member).1, compactShifts_addChain (candidates_of_mem_chain distinct member).1]
    exact Nat.zero_lt_one
  · intro flow member
    rw [(slots_of_mem_chainLinks member).2, compactShifts_addChain (candidates_of_mem_chain distinct member).2]
    exact Nat.zero_lt_one
  · rw [chain, chainLinks_origins]
    exact ((flowOrder_nodup distinct).sublist (List.dropLast_sublist _)).map fun _ _ same => congrArg Prod.fst same
  · rw [chain, chainLinks_targets]
    exact ((flowOrder_nodup distinct).sublist (List.tail_sublist _)).map fun _ _ same => congrArg Prod.fst same
  · intro flow member data
    obtain ⟨link, linked, same⟩ := List.mem_map.1 data
    have used : link.id ∈ doc.usedIds := List.mem_append_left _ (List.mem_append_left _ (List.mem_map_of_mem linked))
    have above := doc.raise_le_nextLinkId used
    rw [same] at above
    exact Word.eq_top_of_raise_le (UInt64.le_trans above (chainLinks_id_lt (flowOrder_room distinct room) member).1)
  · have apart := List.pairwise_map.1 (chainLinks_ids_nodup (flowOrder_room distinct room))
    exact apart.imp fun differ same => absurd same differ

end Chain

/-! ### The runtime document -/

-- What a legacy document becomes.
def chained (doc : Document) (r : Registry) : Document :=
  (doc.addChain r).withWeave ((doc.addChain r).woven (doc.addChain r).flowLinkList)

theorem nodeIds_of_outline {a b : Document} (outline : a.nodes.map (·.outline) = b.nodes.map (·.outline)) :
    a.nodeIds = b.nodeIds ∧ ∀ r, a.passThroughIds r = b.passThroughIds r := by
  have ids : ∀ doc : Document, doc.nodeIds = (doc.nodes.map (·.outline)).map (·.1) := by
    intro doc
    rw [nodeIds, List.map_map]
    rfl
  have passing : ∀ (doc : Document) (r : Registry), doc.passThroughIds r =
      ((doc.nodes.map (·.outline)).filter fun outline => r.isPassThrough outline.2).map (·.1) := by
    intro doc r
    rw [passThroughIds, List.filter_map, List.map_map]
    rfl
  exact ⟨by rw [ids a, ids b, outline], fun r => by rw [passing a, passing b, outline]⟩

section Chained

variable (dataOnly : doc.DataOnly) (distinct : (doc.orderCandidates r).Nodup)
  (room : doc.nextLinkId.toNat + (doc.orderCandidates r).length ≤ UInt64.size)

include dataOnly distinct room in
theorem expand_eq_chained (legacy : doc.supportsFlow = false) (plain : doc.hasCompactFlow = false) :
    doc.expand r = .ok (doc.chained r) := by
  have bare : doc.nodes.any (·.hasFlowSlot) = false := by
    rw [List.any_eq_false]
    intro node member
    simp [dataOnly.slots node member]
  have chain : doc.needsChain = true := by simp [needsChain, legacy, plain, bare]
  rw [expand, if_pos chain]
  exact materialize_of_joinable (addChain_dataOnly doc r dataOnly) rfl (joinable_addChain distinct room)

include dataOnly distinct room in
theorem ran_chained : Weave.Ran (doc.addChain r).compactShifts (doc.addChain r).startWeave
    ((doc.addChain r).woven (doc.addChain r).flowLinkList) ((doc.addChain r).flowLinkList.map (·.toLink)) :=
  ran_woven (addChain_dataOnly doc r dataOnly) (joinable_addChain distinct room)

include dataOnly distinct room in
theorem chained_outline : (doc.chained r).nodes.map (·.outline) = doc.nodes.map (·.outline) :=
  (ran_outline (ran_chained dataOnly distinct room)).trans (addChain_outline doc r)

theorem chained_links : (doc.chained r).links =
    doc.links.map (·.raiseSlots (doc.addChain r).compactShifts) ++ (doc.addChain r).flowLinkList.map (·.toLink) := rfl

include dataOnly distinct room in
theorem chained_linkIds (linkIds : (doc.links.map (·.id)).Nodup) : ((doc.chained r).links.map (·.id)).Nodup := by
  apply (ran_chained dataOnly distinct room).distinct
  · rw [startWeave, List.map_map]
    exact linkIds
  · intro link member atTop
    obtain ⟨flow, inside, rfl⟩ := List.mem_map.1 member
    have below := (chainLinks_id_lt (flowOrder_room distinct room) inside).2
    have same : flow.id = Word.top := atTop
    rw [same] at below
    exact UInt64.lt_irrefl _ below

end Chained

end Document
end Patchbay
