import Patchbay.Proofs.Compiler.Agreement
import Patchbay.Proofs.Reordering.Carried

/-!
The runtime forms of documents that differ in the order of their nodes and links. They hold the same data: stored
sequencing links are hung in alike, and a chain along the flow order, which does depend on the order, is made of
sequencing links alone. Main statements: `expand_reordered` and `Tidy.unambiguous`.
-/
set_option autoImplicit false

namespace Patchbay

/-! ### Nodes whose sequencing slots were given or kept -/

section Converted

variable {g : Graph} {doc : Document} {convert : Node → Node}
  (kept : ∀ node, (convert node).id = node.id ∧ (convert node).inputs = node.inputs ∧
    (convert node).outputs = node.outputs)
  (same : g.nodes.map (·.unsequenced) = doc.nodes.map fun node => (convert node).materializeSlots.unsequenced)
  (dataOnly : doc.DataOnly)

include kept same dataOnly in
theorem Graph.exists_converted {node : Node} (member : node ∈ g.nodes) :
    ∃ stored ∈ doc.nodes, node.Carries stored ∧ node.flowInputCount = (convert stored).compactInputs.length ∧
      node.flowOutputCount = (convert stored).compactOutputs.length := by
  have listed : node.unsequenced ∈ doc.nodes.map fun node => (convert node).materializeSlots.unsequenced := by
    rw [← same]
    exact List.mem_map_of_mem member
  obtain ⟨stored, inside, alike⟩ := List.mem_map.1 listed
  obtain ⟨id, inputs, outputs⟩ := kept stored
  have data : (convert stored).hasFlowSlot = false := by
    rw [Node.hasFlowSlot, Node.flowInputCount, Node.flowOutputCount, inputs, outputs]
    exact dataOnly.slots stored inside
  obtain ⟨carries, counts⟩ := Node.Carries.of_unsequenced data alike.symm
  refine ⟨stored, inside, ⟨carries.id.trans id, carries.lead, ?_, ?_, ?_⟩, counts⟩
  · rw [← inputs]
    exact carries.inputs
  · rw [← outputs]
    exact carries.outputs
  · intro differ
    apply carries.widgets
    rw [Node.WidgetsDiffer, inputs]
    exact differ

include kept same in
theorem Graph.nodeIds_converted : g.nodeIds = doc.nodeIds := by
  have ids := congrArg (List.map (·.id)) same
  rw [List.map_map, List.map_map] at ids
  refine ids.trans (List.map_congr_left fun node _ => ?_)
  exact (kept node).1

include kept same in
theorem Graph.node?_converted (id : NodeId) : (g.node? id).map (·.unsequenced) =
    (doc.nodes.find? (·.id == id)).map fun node => (convert node).materializeSlots.unsequenced := by
  have view : ∀ (f : Node → Node) (nodes : List Node), (∀ node, (f node).id = node.id) →
      (nodes.map f).find? (·.id == id) = (nodes.find? (·.id == id)).map f := by
    intro f nodes sameId
    rw [List.find?_map]
    simp only [Function.comp_def, sameId]
  rw [Graph.node?, ← view (·.unsequenced) g.nodes fun _ => rfl, same, view]
  exact fun node => (kept node).1

include kept in
theorem Document.ids_converted (doc : Document) : (doc.nodes.map convert).map (·.id) = doc.nodeIds := by
  rw [List.map_map]
  exact List.map_congr_left fun node _ => (kept node).1

include kept same dataOnly in
theorem Graph.carries_converted (distinct : doc.nodeIds.Nodup) (linkIds : (g.links.map (·.id)).Nodup)
    (links : ∀ link ∈ doc.links, link.raiseSlots (shiftsOf (·.compactCounts) (doc.nodes.map convert)) ∈ g.links) :
    g.Carries doc (shiftsOf (·.compactCounts) (doc.nodes.map convert)) where
  linkIds := linkIds
  nodes node member := by
    obtain ⟨stored, inside, carries, count, _⟩ := exists_converted kept same dataOnly member
    refine ⟨?_, stored, inside, carries⟩
    have ids : ((doc.nodes.map convert).map (·.id)).Nodup := by
      rw [doc.ids_converted kept]
      exact distinct
    rw [carries.id, ← (kept stored).1, shiftsOf_of_mem _ ids (List.mem_map_of_mem inside), count]
    rfl
  links := links

end Converted

namespace Document

/-! ### Tidy documents -/

/-- Slots and links of the document tell the same story, and fresh link ids do not come to the end of the words. -/
structure Tidy (doc : Document) : Prop where
  displays : (doc.nodeIds.map NodeId.display).Nodup
  linkIds : (doc.links.map (·.id)).Nodup
  dataOnly : doc.DataOnly
  agrees : doc.Agrees
  widgets : ∀ node ∈ doc.nodes, node.WidgetsDiffer
  -- Lists of slots are numbered by words, also with sequencing slots ahead.
  slots : ∀ node ∈ doc.nodes, node.compactInputs.length + node.inputs.length + 1 < UInt64.size
  room : doc.nextLinkId.toNat + max doc.nodes.length doc.flowLinkList.length < UInt64.size

theorem Tidy.distinct {doc : Document} (tidy : doc.Tidy) : doc.nodeIds.Nodup := tidy.displays.of_map _

theorem Tidy.reordered {a b : Document} (tidy : a.Tidy) (reordered : a.Reordered b) : b.Tidy where
  displays := (reordered.nodeIds.map _).nodup_iff.1 tidy.displays
  linkIds := (reordered.links.map _).nodup_iff.1 tidy.linkIds
  dataOnly := ⟨fun node member => tidy.dataOnly.slots node (reordered.nodes.mem_iff.2 member),
    fun link member => tidy.dataOnly.links link (reordered.links.mem_iff.2 member)⟩
  agrees := by
    constructor
    · intro node member slot input place held
      rw [tidy.agrees.inputs node (reordered.nodes.mem_iff.2 member) slot input place held]
      simp only [reordered.links.mem_iff]
    · intro node member slot output place held
      rw [tidy.agrees.outputs node (reordered.nodes.mem_iff.2 member) slot output place held]
      simp only [reordered.links.mem_iff]
  widgets node member := tidy.widgets node (reordered.nodes.mem_iff.2 member)
  slots node member := tidy.slots node (reordered.nodes.mem_iff.2 member)
  room := by
    rw [← reordered.nextLinkId, ← reordered.flowLinkList, ← reordered.nodes.length_eq]
    exact tidy.room

/-- A runtime document whose inputs are each fed once, by links with ids of their own. -/
structure Unambiguous (runtime : Document) : Prop where
  displays : (runtime.nodeIds.map NodeId.display).Nodup
  linkIds : (runtime.links.map (·.id)).Nodup
  fedOnce : runtime.graph.FedOnce
  widgets : ∀ node ∈ runtime.nodes, node.WidgetsDiffer
  flowLinks : runtime.flowLinks = none
  compactable : ∀ node ∈ runtime.nodes, node.Compactable

theorem Unambiguous.graph_eq {runtime : Document} (clear : runtime.Unambiguous) :
    Graph.ofDocument runtime = runtime.graph :=
  Graph.ofDocument_of_distinct runtime (clear.displays.of_map _) clear.linkIds

theorem unambiguous_of_carries {doc runtime : Document} {shifts : NodeId → Nat × Nat} (tidy : doc.Tidy)
    (carries : runtime.graph.Carries doc shifts) (ids : runtime.nodeIds = doc.nodeIds)
    (few : ∀ node ∈ doc.nodes, (shifts node.id).1 ≤ node.compactInputs.length + 1)
    (flowLinks : runtime.flowLinks = none) (compactable : ∀ node ∈ runtime.nodes, node.Compactable) :
    runtime.Unambiguous where
  displays := ids ▸ tidy.displays
  linkIds := carries.linkIds
  fedOnce := by
    apply carries.fedOnce tidy.agrees tidy.linkIds
    intro node member
    have ahead := few node member
    have bound := tidy.slots node member
    omega
  widgets node member := by
    obtain ⟨_, stored, inside, kept⟩ := carries.nodes node member
    exact kept.widgets (tidy.widgets stored inside)
  flowLinks := flowLinks
  compactable := compactable

section Forms

variable {doc runtime : Document} {r : Registry} (tidy : doc.Tidy)

/-! ### Documents that are in runtime form already -/

include tidy in
theorem Tidy.unambiguous_self (plain : doc.hasCompactFlow = false) : doc.Unambiguous := by
  simp only [hasCompactFlow, Bool.or_eq_false_iff, Option.isSome_eq_false_iff, Option.isNone_iff_eq_none,
    List.any_eq_false, Bool.not_eq_true] at plain
  have own : ∀ node ∈ doc.nodes, node.Carries node := fun node member =>
    .of_dataOnly (tidy.dataOnly.slots node member)
  have carries : doc.graph.Carries doc fun _ => (0, 0) := by
    refine ⟨tidy.linkIds, fun node member => ⟨?_, node, member, own node member⟩, fun link member => ?_⟩
    · have inputs := ((Node.hasFlowSlot_eq_false_iff node).1 (tidy.dataOnly.slots node member)).1
      exact (List.countP_eq_zero.2 (by simpa using inputs)).symm
    · have still : link.raiseSlots (fun _ => (0, 0)) = link := by simp only [Link.raiseSlots, Word.raise_zero]
      rw [still]
      exact member
  refine unambiguous_of_carries tidy carries rfl (fun _ _ => Nat.zero_le _) plain.1 fun node member => ?_
  exact ⟨(plain.2 node member).1, (plain.2 node member).2, (own node member).lead⟩

/-! ### Documents with stored sequencing links -/

include tidy in
theorem Tidy.unambiguous_materialize (compact : doc.hasCompactFlow = true) (made : doc.materialize = .ok runtime)
    (compactable : runtime.flowLinks = none ∧ ∀ node ∈ runtime.nodes, node.Compactable) : runtime.Unambiguous := by
  obtain ⟨_, w, run, rfl⟩ := (materialize_eq_ok_iff doc runtime compact).1 made
  obtain ⟨added, ran⟩ := ran_flowLinks tidy.dataOnly run
  have roomy : doc.startWeave.Roomy doc.flowLinkList := by
    refine .inl ⟨?_, fun flow member => ?_⟩
    · have room := tidy.room
      simp only [startWeave]
      omega
    · apply raise_le_nextLinkId
      rw [usedIds, Document.linkIds]
      exact List.mem_append_left _ (List.mem_append_right _ (List.mem_map_of_mem member))
  have linkIds : (w.links.map (·.id)).Nodup := by
    apply roomy.run startWeave_counted _ run
    rw [startWeave, List.map_map]
    exact tidy.linkIds
  have same : (doc.withWeave w).graph.nodes.map (·.unsequenced) =
      doc.nodes.map fun node => (id node).materializeSlots.unsequenced := by
    refine (Weave.unsequenced_run (compactShifts_eq tidy.dataOnly) run).trans ?_
    rw [startWeave, List.map_map]
    rfl
  have kept : ∀ node : Node, (id node).id = node.id ∧ (id node).inputs = node.inputs ∧
      (id node).outputs = node.outputs := fun _ => ⟨rfl, rfl, rfl⟩
  have carries := Graph.carries_converted kept same tidy.dataOnly tidy.distinct linkIds fun link member => by
    rw [List.map_id]
    change link.raiseSlots doc.compactShifts ∈ w.links
    rw [ran.links]
    exact List.mem_append_left added (List.mem_map_of_mem member)
  refine unambiguous_of_carries tidy carries (Graph.nodeIds_converted kept same) ?_ compactable.1 compactable.2
  intro node member
  rw [List.map_id, shiftsOf_of_mem _ tidy.distinct member]
  exact Nat.le_succ _

/-! ### Documents from before sequencing -/

theorem withChainSlots_counts (r : Registry) (node : Node) :
    (node.withChainSlots r).compactInputs.length = (node.withChainSlots r).compactOutputs.length ∧
      (node.withChainSlots r).compactInputs.length ≤ 1 := by
  unfold Node.withChainSlots
  by_cases through : r.isPassThrough node.type
  · rw [if_pos through]
    exact ⟨rfl, Nat.zero_le 1⟩
  · rw [if_neg through]
    exact ⟨rfl, Nat.le_refl 1⟩

theorem addChain_materialized (doc : Document) (r : Registry) : (doc.addChain r).startWeave.nodes =
    doc.nodes.map fun node => (node.withChainSlots r).materializeSlots := by
  refine (linkChain_view (·.materializeSlots) ?_ ?_ _ _).trans (List.map_map ..)
  · intro id node
    cases stored : node.flowOutputs with
    | none => simp [Node.materializeSlots, Node.compactOutputs, Node.compactInputs, Node.linkFirstFlowOutput, stored]
    | some slots =>
      cases slots <;>
        simp [Node.materializeSlots, Node.compactOutputs, Node.compactInputs, Node.linkFirstFlowOutput, stored,
          FlowOutput.toSlot]
  · intro id node
    cases stored : node.flowInputs with
    | none => simp [Node.materializeSlots, Node.compactOutputs, Node.compactInputs, Node.linkFirstFlowInput, stored]
    | some slots =>
      cases slots <;>
        simp [Node.materializeSlots, Node.compactOutputs, Node.compactInputs, Node.linkFirstFlowInput, stored,
          FlowInput.toSlot]

include tidy in
theorem Tidy.chain_room : (doc.orderCandidates r).Nodup ∧
    doc.nextLinkId.toNat + (doc.orderCandidates r).length ≤ UInt64.size := by
  refine ⟨tidy.distinct.filter _, ?_⟩
  have fewer : (doc.orderCandidates r).length ≤ doc.nodes.length :=
    Nat.le_trans (List.length_filter_le _ _) (Nat.le_of_eq (List.length_map _))
  have room := tidy.room
  omega

include tidy in
theorem Tidy.chained_unsequenced : (doc.chained r).graph.nodes.map (·.unsequenced) =
    doc.nodes.map fun node => (node.withChainSlots r).materializeSlots.unsequenced := by
  have dataOnly := addChain_dataOnly doc r tidy.dataOnly
  have run := run_woven [] (doc.addChain r).flowLinkList rfl (joinable_addChain tidy.chain_room.1 tidy.chain_room.2)
  rw [woven_nil] at run
  refine (Weave.unsequenced_run (compactShifts_eq dataOnly) run).trans ?_
  rw [addChain_materialized, List.map_map]
  rfl

include tidy in
theorem Tidy.chained_carries : (doc.chained r).graph.Carries doc (doc.addChain r).compactShifts := by
  rw [compactShifts_addChain_eq]
  apply Graph.carries_converted (withChainSlots_kept r) tidy.chained_unsequenced tidy.dataOnly tidy.distinct
  · exact chained_linkIds tidy.dataOnly tidy.chain_room.1 tidy.chain_room.2 tidy.linkIds
  · intro link member
    rw [← compactShifts_addChain_eq]
    exact List.mem_append_left _ (List.mem_map_of_mem member)

include tidy in
theorem Tidy.unambiguous_chained
    (compactable : (doc.chained r).flowLinks = none ∧ ∀ node ∈ (doc.chained r).nodes, node.Compactable) :
    (doc.chained r).Unambiguous := by
  have ids := Graph.nodeIds_converted (withChainSlots_kept r) (tidy.chained_unsequenced (r := r))
  refine unambiguous_of_carries tidy tidy.chained_carries ids ?_ compactable.1 compactable.2
  intro node member
  have distinct : ((doc.nodes.map (·.withChainSlots r)).map (·.id)).Nodup := by
    rw [doc.ids_converted (withChainSlots_kept r)]
    exact tidy.distinct
  rw [compactShifts_addChain_eq, ← (withChainSlots_kept r node).1, shiftsOf_of_mem _ distinct (List.mem_map_of_mem member)]
  exact Nat.le_trans (withChainSlots_counts r node).2 (Nat.le_add_left 1 _)

end Forms

/-! ### Expansion -/

theorem Tidy.unambiguous {doc runtime : Document} {r : Registry} (tidy : doc.Tidy)
    (expanded : doc.expand r = .ok runtime) : runtime.Unambiguous := by
  cases plain : doc.hasCompactFlow with
  | true =>
    have made := expanded
    have chain : doc.needsChain = false := by simp [needsChain, plain]
    rw [expand, chain, if_neg Bool.false_ne_true] at made
    exact tidy.unambiguous_materialize plain made
      (runtimeOf_expand r doc runtime tidy.dataOnly (.inl plain) expanded).compactable
  | false =>
    cases legacy : doc.supportsFlow with
    | true =>
      rw [expand_of_supportsFlow doc r legacy, materialize_of_not_compact doc plain] at expanded
      cases expanded
      exact tidy.unambiguous_self plain
    | false =>
      have made := (runtimeOf_expand r doc runtime tidy.dataOnly (.inr legacy) expanded).compactable
      rw [expand_eq_chained tidy.dataOnly tidy.chain_room.1 tidy.chain_room.2 legacy plain] at expanded
      cases expanded
      exact tidy.unambiguous_chained made

section Reordered

variable {a b : Document} (reordered : a.Reordered b) (tidy : a.Tidy)

include reordered tidy in
/-- The chains of the two documents may differ, but they join sequencing slots only. -/
theorem chained_sameData (r : Registry) : (a.chained r).graph.SameData (b.chained r).graph := by
  have other := tidy.reordered reordered
  have shifts : (b.addChain r).compactShifts = (a.addChain r).compactShifts := by
    rw [compactShifts_addChain_eq, compactShifts_addChain_eq]
    refine (shiftsOf_perm (reordered.nodes.map _) ?_ _).symm
    rw [a.ids_converted (withChainSlots_kept r)]
    exact tidy.distinct
  apply tidy.chained_carries.sameData (shifts ▸ other.chained_carries) reordered.links tidy.agrees
  · intro id
    rw [Graph.node?_converted (withChainSlots_kept r) tidy.chained_unsequenced,
      Graph.node?_converted (withChainSlots_kept r) other.chained_unsequenced,
      find?_perm Node.id reordered.nodes tidy.distinct]
  · intro node member
    obtain ⟨stored, _, _, inputs, outputs⟩ :=
      Graph.exists_converted (withChainSlots_kept r) tidy.chained_unsequenced tidy.dataOnly member
    rw [inputs, outputs, (withChainSlots_counts r stored).1]

theorem Reordered.sameData {a b : Document} (reordered : a.Reordered b) (distinct : a.nodeIds.Nodup)
    (linkIds : (a.links.map (·.id)).Nodup) : a.graph.SameData b.graph :=
  .of_eq (funext fun id => find?_perm Node.id reordered.nodes distinct id)
    (funext fun id => find?_perm Link.id reordered.links linkIds id)

include reordered tidy in
theorem expand_reordered {r : Registry} {runtime : Document} (expanded : a.expand r = .ok runtime) :
    ∃ other, b.expand r = .ok other ∧ runtime.graph.SameData other.graph := by
  have clear := tidy.unambiguous expanded
  cases chain : a.needsChain with
  | false =>
    rw [expand, chain, if_neg Bool.false_ne_true] at expanded
    obtain ⟨other, made, alike⟩ := reordered.materialize tidy.distinct expanded
    refine ⟨other, ?_, alike.sameData (clear.displays.of_map _) clear.linkIds⟩
    rw [expand, ← reordered.needsChain, chain, if_neg Bool.false_ne_true, made]
  | true =>
    have form := chain
    simp only [needsChain, Bool.and_eq_true, Bool.not_eq_true'] at form
    have other := tidy.reordered reordered
    rw [expand_eq_chained tidy.dataOnly tidy.chain_room.1 tidy.chain_room.2 form.1.1 form.1.2] at expanded
    cases expanded
    refine ⟨b.chained r, ?_, chained_sameData reordered tidy r⟩
    exact expand_eq_chained other.dataOnly other.chain_room.1 other.chain_room.2
      (reordered.supportsFlow ▸ form.1.1) (reordered.hasCompactFlow ▸ form.1.2)

end Reordered

end Document
end Patchbay
