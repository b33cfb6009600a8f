import Patchbay.Proofs.Sequencing.Compaction

/-!
Documents as the editor stores them. What the stored slots say about sequencing is what the stored
links say, so a document in this form comes back as it was once its slots were built and taken out.
-/
set_option autoImplicit false

namespace Patchbay

namespace Document

-- Slot numbers and positions stay below 2 ^ 63, so that adding two of them is exact.
def slotBound : Nat := 1 <<< 63

/-- A document in the form in which the editor stores it. Data links may dangle. -/
structure Canonical (doc : Document) : Prop where
  stored : doc.flowLinks.isSome
  supportsFlow : doc.supportsFlow = true
  nodeIds : doc.nodeIds.Nodup
  dataOnly : doc.DataOnly
  slots : ∀ node ∈ doc.nodes, node.showing doc.flowLinkList = node
  linkIds : doc.linkIds.Nodup
  tails : ∀ flow ∈ doc.flowLinkList, flow.tail = [.text flowType]
  leaving : ∀ flow ∈ doc.flowLinkList, ∃ node ∈ doc.nodes,
    node.id = flow.origin ∧ flow.originSlot.toNat < node.compactOutputs.length
  entering : ∀ flow ∈ doc.flowLinkList, ∃ node ∈ doc.nodes,
    node.id = flow.target ∧ flow.targetSlot.toNat < node.compactInputs.length
  origins : (doc.flowLinkList.map fun flow => (flow.origin, flow.originSlot)).Nodup
  targets : (doc.flowLinkList.map fun flow => (flow.target, flow.targetSlot)).Nodup
  lastLinkId : ∀ id ∈ doc.linkIds, ∃ last ∈ doc.lastLinkId, id ≤ last
  linkSlots : ∀ link ∈ doc.links, link.originSlot.toNat < slotBound ∧ link.targetSlot.toNat < slotBound
  indexes : ∀ node ∈ doc.nodes, ∀ slot ∈ node.outputs, ∀ index ∈ slot.index, index.toNat < slotBound
  lists : ∀ node ∈ doc.nodes, node.compactInputs.length ≤ slotBound ∧ node.compactOutputs.length ≤ slotBound

namespace Canonical

variable {doc : Document} (canonical : doc.Canonical)

include canonical in
theorem compactShifts_of_mem {node : Node} (member : node ∈ doc.nodes) :
    doc.compactShifts node.id = node.compactCounts := by
  rw [compactShifts, shiftsOf, findLast?_of_nodup canonical.nodeIds member]
  rfl

include canonical in
theorem compactShifts_le (id : NodeId) :
    (doc.compactShifts id).1 ≤ slotBound ∧ (doc.compactShifts id).2 ≤ slotBound := by
  rw [compactShifts, shiftsOf]
  cases found : findLast? doc.nodes id with
  | none => exact ⟨Nat.zero_le _, Nat.zero_le _⟩
  | some node => exact canonical.lists node (mem_of_findLast? found)

include canonical in
theorem joinable : doc.Joinable doc.flowLinkList := by
  have distinct := canonical.linkIds
  rw [Document.linkIds, List.nodup_append] at distinct
  constructor
  · intro flow stored
    obtain ⟨node, member, same, inside⟩ := canonical.leaving flow stored
    rwa [← same, canonical.compactShifts_of_mem member]
  · intro flow stored
    obtain ⟨node, member, same, inside⟩ := canonical.entering flow stored
    rwa [← same, canonical.compactShifts_of_mem member]
  · exact canonical.origins
  · exact canonical.targets
  · intro flow stored data
    exact absurd rfl (distinct.2.2 _ data _ (List.mem_map_of_mem stored))
  · exact (List.pairwise_map.1 distinct.2.1).imp fun apart same => absurd same apart

include canonical in
theorem compacted : doc.Compacted where
  stored := canonical.stored
  supportsFlow := canonical.supportsFlow
  dataOnly := canonical.dataOnly
  tails := canonical.tails
  indexes := by
    intro node member slot inside
    have count := (canonical.lists node member).2
    cases index : slot.index with
    | none => cases slot; cases index; rfl
    | some word =>
      have low := canonical.indexes node member slot inside word index
      have room : word.toNat + node.compactOutputs.length < UInt64.size := by
        simp only [slotBound, UInt64.size] at low count ⊢
        omega
      simp only [OutputSlot.raiseIndex, OutputSlot.lowerIndex, index, Option.map_some, Word.lower_raise word _ room]
      rw [← index]
  linkSlots := by
    intro link member
    have origin := (canonical.compactShifts_le link.origin).2
    have target := (canonical.compactShifts_le link.target).1
    obtain ⟨originSlot, targetSlot⟩ := canonical.linkSlots link member
    simp only [slotBound] at origin target originSlot targetSlot
    simp only [Link.raiseSlots, Link.lowerSlots]
    rw [Word.lower_raise link.originSlot _ (by simp only [UInt64.size]; omega),
      Word.lower_raise link.targetSlot _ (by simp only [UInt64.size]; omega)]

include canonical in
theorem consistent : doc.Consistent where
  joinable := canonical.joinable
  slots := by
    rw [mapLast_of_nodup _ _ _ canonical.nodeIds]
    exact (List.map_congr_left canonical.slots).trans (List.map_id doc.nodes)
  lastLinkId := by
    intro id used
    obtain ⟨last, present, below⟩ := canonical.lastLinkId id used
    exact ⟨last, present, Word.raise_mono 1 below⟩

end Canonical

theorem compact_expand_of_canonical (r : Registry) (doc : Document) (canonical : doc.Canonical) :
    ∃ runtime, doc.expand r = .ok runtime ∧ runtime.compact = .ok doc := by
  obtain ⟨runtime, materialized, notCompact, strip⟩ :=
    canonical.compacted.materialize_of_consistent canonical.consistent
  refine ⟨runtime, ?_, ?_⟩
  · rw [expand_of_supportsFlow doc r canonical.supportsFlow, materialized]
  · rw [compact_of_not_compact runtime notCompact, strip]

-- A loader feeds a sampler and a saver runs after it; one sequencing input is left free.
def storedChain : Document :=
  let flowIn (link : Option LinkId) : FlowInput := ⟨"FROM", flowType, some [link], []⟩
  let flowOut (name : String) (index : Word) (link : Option LinkId) : FlowOutput :=
    ⟨name, flowType, link, some index, []⟩
  { empty with
    lastLinkId := some 12
    nodes := [
      { Node.plain (.number 1) "CheckpointLoader" with
        outputs := [{ OutputSlot.plain "MODEL" "MODEL" with links := some [3], index := some 0 }]
        flowInputs := some [flowIn none]
        flowOutputs := some [flowOut "TO" 0 (some 9), flowOut "ELSE" 1 none] },
      { Node.plain (.number 2) "Sampler" with
        inputs := [{ InputSlot.plain "model" "MODEL" with link := some 3 }]
        outputs := [{ OutputSlot.plain "LATENT" "LATENT" with index := some 0 }]
        flowInputs := some [flowIn (some 9)]
        flowOutputs := some [flowOut "TO" 0 (some 7)] },
      { Node.plain (.name "tail") "Saver" with
        flowInputs := some [flowIn none, flowIn (some 7)]
        flowOutputs := some [] }]
    links := [⟨3, .number 1, 0, .number 2, 0, "MODEL"⟩, ⟨5, .number 44, 2, .number 2, 6, "MASK"⟩]
    flowLinks := some [⟨9, .number 1, 0, .number 2, 0, [.text flowType]⟩,
      ⟨7, .number 2, 0, .name "tail", 1, [.text flowType]⟩]
    supportsFlow := true }

theorem compact_expand_of_canonical_storedChain :
    storedChain.Canonical ∧
      ∃ runtime, storedChain.expand .standard = .ok runtime ∧ runtime.compact = .ok storedChain := by
  have below : storedChain.linkIds.all (· ≤ 12) = true := by decide
  have bounded : storedChain.nodes.all (fun node => node.outputs.all fun slot =>
      slot.index.toList.all (·.toNat < slotBound)) = true := by decide
  have canonical : storedChain.Canonical := {
    stored := rfl
    supportsFlow := rfl
    nodeIds := by decide
    dataOnly := ⟨by decide, by decide⟩
    slots := by decide
    linkIds := by decide
    tails := by decide
    leaving := by decide
    entering := by decide
    origins := by decide
    targets := by decide
    lastLinkId := fun id used => ⟨12, rfl, by simpa using List.all_eq_true.1 below id used⟩
    linkSlots := by decide
    indexes := fun node member slot inside index found => by
      have outputs := List.all_eq_true.1 bounded node member
      have indexes := List.all_eq_true.1 outputs slot inside
      simpa using List.all_eq_true.1 indexes index (Option.mem_toList.2 found)
    lists := by decide }
  exact ⟨canonical, compact_expand_of_canonical .standard storedChain canonical⟩

end Document
end Patchbay
