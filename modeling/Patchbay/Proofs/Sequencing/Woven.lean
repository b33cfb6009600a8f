import Patchbay.Proofs.Sequencing.Hanging
import Patchbay.Proofs.Sequencing.RoundTrip

/-!
The run that adds stored sequencing links, told without a run. Links that can all be joined, each under its
own id, are hung in one by one, and a run that comes out like that had nothing else to join.
-/
set_option autoImplicit false

namespace Patchbay
namespace Document

-- The run after some of the stored links. Links are hung into the last node of their id.
def woven (doc : Document) (done : List FlowLink) : Weave where
  nodes := mapLast (·.materializeSlots.hangAll done) (·.materializeSlots) doc.nodes
  links := doc.startWeave.links ++ done.map (·.toLink)
  next := doc.nextLinkId

/-- Every link names stored slots, shares them with no other link, and has an id of its own; the largest
id alone may be shared. -/
structure Joinable (doc : Document) (flows : List FlowLink) : Prop where
  leaving : ∀ flow ∈ flows, flow.originSlot.toNat < (doc.compactShifts flow.origin).2
  entering : ∀ flow ∈ flows, flow.targetSlot.toNat < (doc.compactShifts flow.target).1
  origins : (flows.map fun flow => (flow.origin, flow.originSlot)).Nodup
  targets : (flows.map fun flow => (flow.target, flow.targetSlot)).Nodup
  dataIds : ∀ flow ∈ flows, flow.id ∈ doc.links.map (·.id) → flow.id = Word.top
  flowIds : flows.Pairwise fun earlier flow => earlier.id = flow.id → flow.id = Word.top

-- What one more link needs after those that are hung in.
structure Joins (doc : Document) (done : List FlowLink) (flow : FlowLink) : Prop where
  originSlot : flow.originSlot.toNat < (doc.compactShifts flow.origin).2
  targetSlot : flow.targetSlot.toNat < (doc.compactShifts flow.target).1
  output : ∀ earlier ∈ done, (earlier.origin, earlier.originSlot) ≠ (flow.origin, flow.originSlot)
  input : ∀ earlier ∈ done, (earlier.target, earlier.targetSlot) ≠ (flow.target, flow.targetSlot)
  dataId : flow.id ∈ doc.links.map (·.id) → flow.id = Word.top
  flowId : ∀ earlier ∈ done, earlier.id = flow.id → flow.id = Word.top

theorem joinable_nil (doc : Document) : doc.Joinable [] :=
  ⟨by simp, by simp, List.nodup_nil, List.nodup_nil, by simp, List.Pairwise.nil⟩

theorem joinable_concat_iff (doc : Document) (done : List FlowLink) (flow : FlowLink) :
    doc.Joinable (done ++ [flow]) ↔ doc.Joinable done ∧ doc.Joins done flow := by
  have distinct : ∀ {β : Type} (key : FlowLink → β), ((done ++ [flow]).map key).Nodup ↔
      (done.map key).Nodup ∧ ∀ earlier ∈ done, key earlier ≠ key flow := by
    intro β key
    rw [List.map_append, List.nodup_append]
    simp
  constructor
  · intro joinable
    obtain ⟨leaving, entering, origins, targets, dataIds, flowIds⟩ := joinable
    rw [List.forall_mem_append] at leaving entering dataIds
    rw [distinct] at origins targets
    rw [List.pairwise_append] at flowIds
    exact ⟨⟨leaving.1, entering.1, origins.1, targets.1, dataIds.1, flowIds.1⟩,
      ⟨leaving.2 flow (List.mem_singleton_self flow), entering.2 flow (List.mem_singleton_self flow), origins.2,
        targets.2, dataIds.2 flow (List.mem_singleton_self flow),
        fun earlier member => flowIds.2.2 earlier member flow (List.mem_singleton_self flow)⟩⟩
  · intro ⟨joinable, joins⟩
    constructor
    · rw [List.forall_mem_append]
      exact ⟨joinable.leaving, by simpa using joins.originSlot⟩
    · rw [List.forall_mem_append]
      exact ⟨joinable.entering, by simpa using joins.targetSlot⟩
    · rw [distinct]
      exact ⟨joinable.origins, joins.output⟩
    · rw [distinct]
      exact ⟨joinable.targets, joins.input⟩
    · rw [List.forall_mem_append]
      exact ⟨joinable.dataIds, by simpa using joins.dataId⟩
    · rw [List.pairwise_append]
      exact ⟨joinable.flowIds, List.pairwise_singleton _ _, by simpa using joins.flowId⟩

section Woven

variable {doc : Document} {done : List FlowLink}

theorem woven_nil : doc.woven [] = doc.startWeave := by
  apply Weave.ext
  · exact mapLast_self (·.materializeSlots) doc.nodes
  · exact List.append_nil _
  · rfl

theorem hangAll_materialize_id (done : List FlowLink) (node : Node) :
    (node.materializeSlots.hangAll done).id = node.id := node.materializeSlots.hangAll_id done

theorem materialize_id (node : Node) : node.materializeSlots.id = node.id := rfl

theorem findLast?_woven (id : NodeId) : findLast? (doc.woven done).nodes id =
    (findLast? doc.nodes id).map (·.materializeSlots.hangAll done) :=
  findLast?_mapLast (hangAll_materialize_id done) materialize_id doc.nodes id

theorem ids_woven : (doc.woven done).links.map (·.id) = doc.links.map (·.id) ++ done.map (·.id) := by
  rw [woven, startWeave, List.map_append, List.map_map, List.map_map]
  rfl

theorem node_of_outputSlot {id : NodeId} {slot : Nat} (inside : slot < (doc.compactShifts id).2) :
    ∃ node, findLast? doc.nodes id = some node ∧ slot < node.compactOutputs.length := by
  rw [compactShifts, shiftsOf] at inside
  cases found : findLast? doc.nodes id with
  | none =>
    rw [found] at inside
    cases inside
  | some node =>
    rw [found] at inside
    exact ⟨node, rfl, inside⟩

theorem node_of_inputSlot {id : NodeId} {slot : Nat} (inside : slot < (doc.compactShifts id).1) :
    ∃ node, findLast? doc.nodes id = some node ∧ slot < node.compactInputs.length := by
  rw [compactShifts, shiftsOf] at inside
  cases found : findLast? doc.nodes id with
  | none =>
    rw [found] at inside
    cases inside
  | some node =>
    rw [found] at inside
    exact ⟨node, rfl, inside⟩

/-- Slots of a node are there only if the node is. -/
theorem fits_woven_iff (flow : FlowLink) : (doc.woven done).Fits doc.compactShifts flow ↔
    flow.originSlot.toNat < (doc.compactShifts flow.origin).2 ∧
      flow.targetSlot.toNat < (doc.compactShifts flow.target).1 := by
  constructor
  · exact fun fits => ⟨fits.originSlot, fits.targetSlot⟩
  · intro ⟨output, input⟩
    obtain ⟨origin, foundOrigin, _⟩ := node_of_outputSlot output
    obtain ⟨target, foundTarget, _⟩ := node_of_inputSlot input
    constructor
    · rw [findLast?_woven, foundOrigin]
      rfl
    · rw [findLast?_woven, foundTarget]
      rfl
    · exact output
    · exact input

theorem outputTaken_woven_iff {id : NodeId} {slot : Word} (inside : slot.toNat < (doc.compactShifts id).2) :
    (doc.woven done).outputTaken id slot = true ↔
      ∃ earlier ∈ done, (earlier.origin, earlier.originSlot) = (id, slot) := by
  obtain ⟨node, found, below⟩ := node_of_outputSlot inside
  have same : node.materializeSlots.id = id := (materialize_id node).trans (id_of_findLast? found)
  rw [Weave.outputTaken, findLast?_woven, found, Option.map_some, Option.bind_some, Node.hangAll_output,
    Node.materialized_output_lt below, List.getElem?_eq_getElem below, same]
  simp only [Option.map_some, Option.any_some, Node.linkIds_attachAll]
  have unlinked : ((node.compactOutputs[slot.toNat]).toSlot slot.toNat).linkIds = [] := rfl
  rw [unlinked, List.nil_append, Bool.not_eq_true', List.isEmpty_eq_false_iff, Ne, List.map_eq_nil_iff,
    List.filter_eq_nil_iff]
  simp only [FlowLink.leaves_iff, Prod.mk.injEq, UInt64.toNat_inj, Classical.not_forall, Classical.not_not, exists_prop]

theorem inputTaken_woven_iff {id : NodeId} {slot : Word} (inside : slot.toNat < (doc.compactShifts id).1) :
    (doc.woven done).inputTaken id slot = true ↔
      ∃ earlier ∈ done, (earlier.target, earlier.targetSlot) = (id, slot) := by
  obtain ⟨node, found, below⟩ := node_of_inputSlot inside
  have same : node.materializeSlots.id = id := (materialize_id node).trans (id_of_findLast? found)
  rw [Weave.inputTaken, findLast?_woven, found, Option.map_some, Option.bind_some, Node.hangAll_input,
    Node.materialized_input_lt below, List.getElem?_eq_getElem below, same]
  simp only [Option.map_some, Option.any_some, Node.isSome_linkAll]
  have unlinked : (node.compactInputs[slot.toNat]).toSlot.link = none := rfl
  rw [unlinked, Option.isSome_none, Bool.false_or, Bool.not_eq_true', List.isEmpty_eq_false_iff, Ne,
    List.filter_eq_nil_iff]
  simp only [FlowLink.enters_iff, Prod.mk.injEq, UInt64.toNat_inj, Classical.not_forall, Classical.not_not, exists_prop]

theorem holds_woven_iff (id : LinkId) :
    (doc.woven done).holds id = true ↔ id ∈ doc.links.map (·.id) ∨ ∃ earlier ∈ done, earlier.id = id := by
  have used : (doc.woven done).holds id = ((doc.woven done).links.map (·.id)).any (· == id) := by
    rw [Weave.holds, List.any_map]
    rfl
  rw [used, ids_woven, List.any_beq', List.contains_iff_mem, List.mem_append, List.mem_map (l := done)]

theorem hang_woven (done : List FlowLink) (flow : FlowLink) :
    updateLast flow.target (·.hangTarget flow.toLink)
      (updateLast flow.origin (·.hangOrigin flow.toLink) (doc.woven done).nodes) =
        (doc.woven (done ++ [flow])).nodes := by
  rw [woven, updateLast_mapLast (hangAll_materialize_id done) materialize_id, updateLast_mapLast _ materialize_id]
  · refine mapLast_congr (fun node _ => ?_) fun _ _ => rfl
    have concat : node.materializeSlots.hangAll (done ++ [flow]) =
        (node.materializeSlots.hangAll done).hang flow := by
      rw [Node.hangAll, List.foldl_append]
      rfl
    simp only [concat, Node.hang, hangAll_materialize_id]
  · intro node
    rw [apply_ite Node.id]
    exact (ite_self _).trans (hangAll_materialize_id done node)

/-! ### One link -/

section Step

variable {flow : FlowLink} (stored : flow ∈ doc.flowLinkList)

include stored in
theorem raise_le_of_stored : flow.id.raise 1 ≤ doc.nextLinkId := by
  apply raise_le_nextLinkId
  rw [usedIds, Document.linkIds]
  exact List.mem_append_left _ (List.mem_append_right _ (List.mem_map_of_mem stored))

include stored in
-- The counter stands above every stored id, so only the largest id comes out of it again.
theorem linkFor_woven_iff : (doc.woven done).linkFor flow = flow.toLink ↔
    ((doc.woven done).holds flow.id = true → flow.id = Word.top) := by
  have above := raise_le_of_stored stored
  have own : flow.toLink.id = flow.id := rfl
  by_cases held : (doc.woven done).holds flow.id = true
  · have next : (doc.woven done).next = doc.nextLinkId := rfl
    rw [Weave.linkFor, if_pos held, next]
    constructor
    · intro same _
      have same : doc.nextLinkId = flow.id := congrArg Link.id same
      exact Word.eq_top_of_raise_le (same ▸ above)
    · intro top
      rw [top held, Word.raise_top] at above
      rw [Word.eq_top_of_top_le above, ← top held]
      rfl
  · rw [Weave.linkFor, if_neg held]
    exact ⟨fun _ some => absurd some held, fun _ => rfl⟩

include stored in
theorem joins_iff : doc.Joins done flow ↔
    (doc.woven done).Fits doc.compactShifts flow ∧ (doc.woven done).blocked flow = false ∧
      (doc.woven done).linkFor flow = flow.toLink := by
  rw [fits_woven_iff, linkFor_woven_iff stored, holds_woven_iff, Weave.blocked, Bool.or_eq_false_iff,
    ← Bool.not_eq_true, ← Bool.not_eq_true]
  constructor
  · intro joins
    refine ⟨⟨joins.originSlot, joins.targetSlot⟩, ⟨?_, ?_⟩, ?_⟩
    · rw [outputTaken_woven_iff joins.originSlot]
      rintro ⟨earlier, member, same⟩
      exact joins.output earlier member same
    · rw [inputTaken_woven_iff joins.targetSlot]
      rintro ⟨earlier, member, same⟩
      exact joins.input earlier member same
    · intro held
      rcases held with data | ⟨earlier, member, same⟩
      · exact joins.dataId data
      · exact joins.flowId earlier member same
  · rintro ⟨⟨output, input⟩, ⟨freeOutput, freeInput⟩, own⟩
    rw [outputTaken_woven_iff output] at freeOutput
    rw [inputTaken_woven_iff input] at freeInput
    exact ⟨output, input, fun earlier member same => freeOutput ⟨earlier, member, same⟩,
      fun earlier member same => freeInput ⟨earlier, member, same⟩, fun data => own (.inl data),
      fun earlier member same => own (.inr ⟨earlier, member, same⟩)⟩

include stored in
theorem accept_woven (link : (doc.woven done).linkFor flow = flow.toLink) :
    (doc.woven done).accept flow = doc.woven (done ++ [flow]) := by
  apply Weave.ext
  · rw [Weave.accept_nodes, link, hang_woven]
  · rw [Weave.accept_links, link]
    simp only [woven, List.map_append, List.map_cons, List.map_nil, List.append_assoc]
  · have above := raise_le_of_stored stored
    have before : (doc.woven done).next = doc.nextLinkId := rfl
    have after : (doc.woven (done ++ [flow])).next = doc.nextLinkId := rfl
    rw [Weave.accept, before, after]
    by_cases held : (doc.woven done).holds flow.id = true
    · rw [(linkFor_woven_iff stored).1 link held, Word.raise_top] at above
      rw [if_pos held, Word.eq_top_of_top_le above, Word.raise_top]
    · rw [UInt64.le_iff_toNat_le] at above
      rw [if_neg held, ← UInt64.toNat_inj, Word.toNat_max]
      omega

end Step

/-! ### All links -/

theorem run_woven (done rest : List FlowLink) (split : doc.flowLinkList = done ++ rest)
    (joinable : doc.Joinable doc.flowLinkList) :
    rest.foldlM (Weave.add doc.compactShifts) (doc.woven done) = .ok (doc.woven doc.flowLinkList) := by
  -- What is joined is a beginning of the list, so the induction goes from its end.
  have prefixes : ∀ b a : List FlowLink, doc.Joinable (a ++ b) → doc.Joinable a := by
    intro b
    induction b with
    | nil => exact fun a all => by rwa [List.append_nil] at all
    | cons flow b ih =>
      intro a all
      rw [← List.singleton_append, ← List.append_assoc] at all
      exact ((doc.joinable_concat_iff a flow).1 (ih _ all)).1
  induction rest generalizing done with
  | nil =>
    rw [List.append_nil] at split
    rw [split]
    rfl
  | cons flow rest ih =>
    have stored : flow ∈ doc.flowLinkList := by
      rw [split]
      exact List.mem_append_right done List.mem_cons_self
    have again : doc.flowLinkList = (done ++ [flow]) ++ rest := by rw [split, List.append_assoc]; rfl
    have joins := ((doc.joinable_concat_iff done flow).1 (prefixes rest _ (again ▸ joinable))).2
    obtain ⟨fits, free, link⟩ := (joins_iff stored).1 joins
    have step : (doc.woven done).add doc.compactShifts flow = .ok (doc.woven (done ++ [flow])) := by
      rw [Weave.add_eq_ok_iff, free, if_neg Bool.false_ne_true, accept_woven stored link]
      exact ⟨fits, rfl⟩
    rw [List.foldlM_cons, step]
    exact ih (done ++ [flow]) again

/-- A run that gives each link its own place has found each of them joinable. -/
theorem joinable_of_run (done rest : List FlowLink) (split : doc.flowLinkList = done ++ rest)
    (before : doc.Joinable done) (w : Weave)
    (run : rest.foldlM (Weave.add doc.compactShifts) (doc.woven done) = .ok w)
    (links : w.links = (doc.woven doc.flowLinkList).links) : doc.Joinable doc.flowLinkList := by
  induction rest generalizing done with
  | nil =>
    rw [List.append_nil] at split
    rwa [split]
  | cons flow rest ih =>
    have stored : flow ∈ doc.flowLinkList := by
      rw [split]
      exact List.mem_append_right done List.mem_cons_self
    have wanted : w.links = (doc.woven done).links ++ flow.toLink :: rest.map (·.toLink) := by
      rw [links, split]
      simp only [woven, List.map_append, List.map_cons, List.append_assoc]
    rw [List.foldlM_cons] at run
    cases step : (doc.woven done).add doc.compactShifts flow with
    | error cause =>
      rw [step] at run
      cases run
    | ok next =>
      rw [step] at run
      obtain ⟨fits, rfl⟩ := (Weave.add_eq_ok_iff doc.compactShifts (doc.woven done) next flow).1 step
      obtain ⟨added, after, short⟩ := Weave.links_foldlM doc.compactShifts rest _ w run
      by_cases taken : (doc.woven done).blocked flow
      · -- The link was left out, and the links after it cannot make up for that.
        rw [if_pos taken, wanted] at after
        have lengths := congrArg List.length (List.append_cancel_left after)
        rw [List.length_cons, List.length_map] at lengths
        omega
      · rw [if_neg taken] at run after
        rw [Weave.accept_links, wanted, List.append_assoc] at after
        have link : (doc.woven done).linkFor flow = flow.toLink :=
          (List.cons.inj (List.append_cancel_left after)).1.symm
        have joins : doc.Joins done flow := (joins_iff stored).2 ⟨fits, by simpa using taken, link⟩
        rw [accept_woven stored link] at run
        have further : doc.flowLinkList = (done ++ [flow]) ++ rest := by
          rw [split, List.append_assoc]
          rfl
        exact ih (done ++ [flow]) further ((doc.joinable_concat_iff done flow).2 ⟨before, joins⟩) run

theorem materialize_of_joinable (dataOnly : doc.DataOnly) (compact : doc.hasCompactFlow = true)
    (joinable : doc.Joinable doc.flowLinkList) :
    doc.materialize = .ok (doc.withWeave (doc.woven doc.flowLinkList)) := by
  rw [materialize_eq_ok_iff _ _ compact]
  refine ⟨fun node member => ?_, doc.woven doc.flowLinkList, ?_, rfl⟩
  · rw [Node.mixesForms, dataOnly.slots node member, Bool.and_false]
  · rw [← woven_nil]
    exact run_woven [] doc.flowLinkList rfl joinable

theorem ran_woven (dataOnly : doc.DataOnly) (joinable : doc.Joinable doc.flowLinkList) :
    Weave.Ran doc.compactShifts doc.startWeave (doc.woven doc.flowLinkList) (doc.flowLinkList.map (·.toLink)) := by
  have run := run_woven [] doc.flowLinkList rfl joinable
  rw [woven_nil] at run
  obtain ⟨added, ran⟩ := ran_flowLinks dataOnly run
  have same : doc.startWeave.links ++ doc.flowLinkList.map (·.toLink) = doc.startWeave.links ++ added := ran.links
  rw [List.append_cancel_left same]
  exact ran

end Woven

end Document
end Patchbay
