import Patchbay.Proofs.Sequencing.Woven

/-!
Compacting what has been compacted. The slots and the links of a stored document both tell which slots are
linked; compacting it once more is an error, or leaves it alone, or changes it, depending on what they say.
-/
set_option autoImplicit false

namespace Patchbay
namespace Document

theorem strip_eq_ok_iff (doc stored : Document) :
    doc.strip = .ok stored ↔ (∀ node ∈ doc.nodes, node.flowSlotsLead = true) ∧ stored = doc.stripped := by
  cases found : doc.nodes.find? (!·.flowSlotsLead) with
  | some node =>
    have bad := List.find?_some found
    have member := List.mem_of_find?_eq_some found
    constructor
    · intro done
      unfold strip at done
      rw [found] at done
      cases done
    · intro ⟨lead, _⟩
      rw [lead node member] at bad
      cases bad
  | none =>
    have lead : ∀ node ∈ doc.nodes, node.flowSlotsLead = true := by simpa using List.find?_eq_none.1 found
    rw [strip_eq_ok doc lead, Except.ok.injEq]
    exact ⟨fun same => ⟨lead, same.symm⟩, fun ⟨_, same⟩ => same.symm⟩

theorem compact_eq_ok_iff (doc stored : Document) : doc.compact = .ok stored ↔
    ∃ runtime, doc.materialize = .ok runtime ∧ (∀ node ∈ runtime.nodes, node.flowSlotsLead = true) ∧
      stored = runtime.stripped := by
  unfold compact
  cases materialized : doc.materialize with
  | error cause => simp [Bind.bind, Except.bind]
  | ok runtime => simp [Bind.bind, Except.bind, strip_eq_ok_iff]

/-- What compaction makes of any document. -/
structure Compacted (doc : Document) : Prop where
  stored : doc.flowLinks.isSome
  supportsFlow : doc.supportsFlow = true
  dataOnly : doc.DataOnly
  tails : ∀ flow ∈ doc.flowLinkList, flow.tail = [.text flowType]
  indexes : ∀ node ∈ doc.nodes, ∀ slot ∈ node.outputs,
    (slot.raiseIndex node.compactOutputs.length).lowerIndex node.compactOutputs.length = slot
  linkSlots : ∀ link ∈ doc.links, (link.raiseSlots doc.compactShifts).lowerSlots doc.compactShifts = link

theorem compacted_stripped (runtime : Document) (lead : ∀ node ∈ runtime.nodes, node.flowSlotsLead = true) :
    runtime.stripped.Compacted where
  stored := rfl
  supportsFlow := rfl
  dataOnly := by
    constructor
    · intro node member
      obtain ⟨live, inside, rfl⟩ := List.mem_map.1 member
      exact live.hasFlowSlot_stripSlots (lead live inside)
    · intro link member
      obtain ⟨live, inside, rfl⟩ := List.mem_map.1 member
      have data : live.isFlow = false := by simpa using (List.mem_filter.1 inside).2
      exact data
  tails := by
    intro flow member
    obtain ⟨link, inside, rfl⟩ := List.mem_map.1 member
    have type : link.type = flowType := by simpa [Link.isFlow] using (List.mem_filter.1 inside).2
    rw [Link.toFlowLink, type]
  indexes := by
    intro node member slot inside
    obtain ⟨live, _, rfl⟩ := List.mem_map.1 member
    obtain ⟨output, _, rfl⟩ := List.mem_map.1 inside
    have count := congrArg Prod.snd live.compactCounts_stripSlots
    simp only [Node.compactCounts, Node.leadingCounts] at count
    rw [count]
    cases index : output.index with
    | none => simp [OutputSlot.raiseIndex, OutputSlot.lowerIndex, index]
    | some word => simp [OutputSlot.raiseIndex, OutputSlot.lowerIndex, index, Word.lower_raise_lower]
  linkSlots := by
    intro link member
    obtain ⟨live, _, rfl⟩ := List.mem_map.1 member
    rw [compactShifts_stripped]
    simp only [Link.raiseSlots, Link.lowerSlots, Word.lower_raise_lower]

/-- Slots and links of a stored document tell the same. The last node of each id shows the links, the
nodes before it show none. -/
structure Consistent (doc : Document) : Prop where
  joinable : doc.Joinable doc.flowLinkList
  slots : mapLast (·.showing doc.flowLinkList) (·.showing []) doc.nodes = doc.nodes
  lastLinkId : ∀ id ∈ doc.linkIds, ∃ last ∈ doc.lastLinkId, id.raise 1 ≤ last.raise 1

-- All stored links name stored slots.
def Joined (doc : Document) : Prop :=
  ∀ flow ∈ doc.flowLinkList, flow.originSlot.toNat < (doc.compactShifts flow.origin).2 ∧
    flow.targetSlot.toNat < (doc.compactShifts flow.target).1

/-! ### The counter -/

theorem nextLinkId_pos {doc : Document} {id : LinkId} (used : id ∈ doc.linkIds) : 0 < doc.nextLinkId := by
  have above := doc.raise_le_nextLinkId (List.mem_append_left _ used)
  have one := Word.raise_one_pos id
  rw [UInt64.lt_iff_toNat_lt] at one ⊢
  rw [UInt64.le_iff_toNat_le] at above
  omega

theorem nextLinkId_of_covered {doc : Document} {largest : LinkId} (last : doc.lastLinkId = some largest)
    (covered : ∀ id ∈ doc.linkIds, id.raise 1 ≤ largest.raise 1) : doc.nextLinkId = largest.raise 1 := by
  have counted : largest ∈ doc.usedIds := List.mem_append_right _ (by rw [last]; exact List.mem_singleton_self _)
  refine doc.nextLinkId_eq _ (fun id used => ?_) fun _ => ⟨largest, counted, rfl⟩
  rw [usedIds, last, List.mem_append] at used
  rcases used with used | same
  · exact covered id used
  · rw [Option.some.inj (Option.mem_toList.1 same)]
    exact UInt64.le_refl _

theorem lastLinkIdAfter_raise (largest : LinkId) :
    lastLinkIdAfter (some largest) (largest.raise 1) = some largest := by
  rw [lastLinkIdAfter, if_pos (Word.raise_one_pos largest), Option.getD_some, Option.some.injEq,
    ← UInt64.toNat_inj, Word.toNat_max, Word.toNat_lower, Word.toNat_raise]
  omega

theorem lastLinkIdAfter_eq_iff (doc : Document) : lastLinkIdAfter doc.lastLinkId doc.nextLinkId = doc.lastLinkId ↔
    ∀ id ∈ doc.linkIds, ∃ last ∈ doc.lastLinkId, id.raise 1 ≤ last.raise 1 := by
  constructor
  · intro same id used
    rw [lastLinkIdAfter, if_pos (nextLinkId_pos used)] at same
    refine ⟨_, same.symm, ?_⟩
    have reach := Word.raise_mono 1 (Word.le_max_right (doc.lastLinkId.getD 0) (doc.nextLinkId.lower 1))
    rw [Word.raise_lower_of_pos (nextLinkId_pos used)] at reach
    exact UInt64.le_trans (doc.raise_le_nextLinkId (List.mem_append_left _ used)) reach
  · intro covered
    cases last : doc.lastLinkId with
    | none =>
      have unused : doc.linkIds = [] := by
        refine List.eq_nil_iff_forall_not_mem.2 fun id used => ?_
        obtain ⟨bound, present, _⟩ := covered id used
        rw [last] at present
        cases present
      have zero : doc.nextLinkId = 0 := by
        rw [nextLinkId, unused, last]
        rfl
      rw [zero]
      rfl
    | some largest =>
      rw [nextLinkId_of_covered last fun id used => ?_]
      · exact lastLinkIdAfter_raise largest
      · obtain ⟨bound, present, below⟩ := covered id used
        rw [last] at present
        cases present
        exact below

namespace Compacted

variable {doc : Document} (compacted : doc.Compacted)

include compacted in
theorem hasCompactFlow : doc.hasCompactFlow = true := by
  rw [Document.hasCompactFlow, compacted.stored]
  rfl

/-! ### Compacting once more -/

section Joinable

variable (joinable : doc.Joinable doc.flowLinkList)

include compacted joinable in
theorem nodes_stripped : (doc.withWeave (doc.woven doc.flowLinkList)).stripped.nodes =
    mapLast (·.showing doc.flowLinkList) (·.showing []) doc.nodes := by
  have both : (doc.withWeave (doc.woven doc.flowLinkList)).stripped.nodes =
      mapLast (fun node => (node.materializeSlots.hangAll doc.flowLinkList).stripSlots)
        (fun node => node.materializeSlots.stripSlots) doc.nodes := mapLast_map _ _ _ doc.nodes
  rw [both]
  refine mapLast_congr (fun node found => ?_) fun node member => ?_
  · have member := mem_of_findLast? found
    have counts : doc.compactShifts node.id = node.compactCounts := by
      rw [compactShifts, shiftsOf, found]
      rfl
    refine Node.stripSlots_hangAll (compacted.dataOnly.slots node member) joinable.targets
      (fun flow stored target => ?_) (fun flow stored origin => ?_) (compacted.indexes node member)
    · have inside := joinable.entering flow stored
      rwa [target, counts] at inside
    · have inside := joinable.leaving flow stored
      rwa [origin, counts] at inside
  · have alone : (node.materializeSlots.hangAll []).stripSlots = node.showing [] :=
      Node.stripSlots_hangAll (compacted.dataOnly.slots node member) List.nodup_nil (by simp) (by simp)
        (compacted.indexes node member)
    exact alone

include compacted joinable in
theorem links_stripped : (doc.withWeave (doc.woven doc.flowLinkList)).stripped.links = doc.links := by
  rw [ran_links_stripped compacted.dataOnly (ran_woven compacted.dataOnly joinable), startWeave, List.map_map]
  exact (List.map_congr_left compacted.linkSlots).trans (List.map_id doc.links)

include compacted joinable in
theorem flowLinks_stripped :
    (doc.withWeave (doc.woven doc.flowLinkList)).stripped.flowLinks = doc.flowLinks := by
  have each : (doc.flowLinkList.map (·.toLink)).map (·.toFlowLink) = doc.flowLinkList := by
    rw [List.map_map]
    refine (List.map_congr_left fun flow member => ?_).trans (List.map_id doc.flowLinkList)
    simp only [Function.comp, FlowLink.toLink, Link.toFlowLink]
    rw [← compacted.tails flow member]
    rfl
  obtain ⟨flows, stored⟩ := Option.isSome_iff_exists.1 compacted.stored
  simp only [stripped, ran_flowLinks_again compacted.dataOnly (ran_woven compacted.dataOnly joinable), each]
  rw [flowLinkList, stored]
  rfl

include compacted joinable in
theorem stripped_woven : (doc.withWeave (doc.woven doc.flowLinkList)).stripped =
    { doc with
      nodes := mapLast (·.showing doc.flowLinkList) (·.showing []) doc.nodes
      lastLinkId := lastLinkIdAfter doc.lastLinkId doc.nextLinkId } := by
  have parts : (doc.withWeave (doc.woven doc.flowLinkList)).stripped =
      { doc with
        nodes := (doc.withWeave (doc.woven doc.flowLinkList)).stripped.nodes
        links := (doc.withWeave (doc.woven doc.flowLinkList)).stripped.links
        flowLinks := (doc.withWeave (doc.woven doc.flowLinkList)).stripped.flowLinks
        lastLinkId := lastLinkIdAfter doc.lastLinkId doc.nextLinkId
        supportsFlow := true } := rfl
  rw [parts, compacted.nodes_stripped joinable, compacted.links_stripped joinable,
    compacted.flowLinks_stripped joinable, ← compacted.supportsFlow]

end Joinable

include compacted in
theorem materialize_of_consistent (consistent : doc.Consistent) :
    ∃ runtime, doc.materialize = .ok runtime ∧ runtime.hasCompactFlow = false ∧ runtime.strip = .ok doc := by
  have ran := ran_woven compacted.dataOnly consistent.joinable
  refine ⟨doc.withWeave (doc.woven doc.flowLinkList), ?_, ran_not_compact ran, ?_⟩
  · exact materialize_of_joinable compacted.dataOnly compacted.hasCompactFlow consistent.joinable
  · rw [strip_eq_ok _ (ran_flowSlotsLead compacted.dataOnly ran), compacted.stripped_woven consistent.joinable,
      consistent.slots, (lastLinkIdAfter_eq_iff doc).2 consistent.lastLinkId]

include compacted in
theorem compact_eq_self_iff : doc.compact = .ok doc ↔ doc.Consistent := by
  constructor
  · intro again
    obtain ⟨runtime, materialized, _, same⟩ := (doc.compact_eq_ok_iff doc).1 again
    obtain ⟨_, w, run, rfl⟩ := (materialize_eq_ok_iff doc runtime compacted.hasCompactFlow).1 materialized
    obtain ⟨added, ran⟩ := ran_flowLinks compacted.dataOnly run
    have flows : doc.flowLinkList = added.map (·.toFlowLink) :=
      (congrArg flowLinkList same).trans (ran_flowLinkList_stripped compacted.dataOnly ran)
    have links : w.links = (doc.woven doc.flowLinkList).links := by
      have kept : (added.map (·.toFlowLink)).map (·.toLink) = added := by
        rw [List.map_map]
        refine (List.map_congr_left fun link member => ?_).trans (List.map_id added)
        exact Weave.toLink_toFlowLink link (ran.flow link member)
      rw [ran.links, woven, flows, kept]
    rw [← woven_nil] at run
    have joinable := joinable_of_run [] doc.flowLinkList rfl doc.joinable_nil w run links
    have unique := (run_woven [] doc.flowLinkList rfl joinable).symm.trans run
    rw [← Except.ok.inj unique, compacted.stripped_woven joinable] at same
    exact ⟨joinable, (congrArg Document.nodes same).symm,
      (lastLinkIdAfter_eq_iff doc).1 (congrArg Document.lastLinkId same).symm⟩
  · intro consistent
    obtain ⟨runtime, materialized, _, strip⟩ := compacted.materialize_of_consistent consistent
    unfold Document.compact
    rw [materialized]
    exact strip

include compacted in
theorem compact_ok_iff : (∃ again, doc.compact = .ok again) ↔ doc.Joined := by
  have fitting : (∃ w, doc.flowLinkList.foldlM (Weave.add doc.compactShifts) doc.startWeave = .ok w) ↔
      doc.Joined := by
    rw [← woven_nil, Weave.foldlM_add_ok_iff]
    exact forall₂_congr fun flow _ => fits_woven_iff flow
  rw [← fitting]
  constructor
  · intro ⟨again, done⟩
    obtain ⟨runtime, materialized, _⟩ := (doc.compact_eq_ok_iff again).1 done
    obtain ⟨_, w, run, _⟩ := (materialize_eq_ok_iff doc runtime compacted.hasCompactFlow).1 materialized
    exact ⟨w, run⟩
  · intro ⟨w, run⟩
    obtain ⟨added, ran⟩ := ran_flowLinks compacted.dataOnly run
    refine ⟨_, (doc.compact_eq_ok_iff _).2 ⟨doc.withWeave w, ?_, ran_flowSlotsLead compacted.dataOnly ran, rfl⟩⟩
    rw [materialize_eq_ok_iff _ _ compacted.hasCompactFlow]
    refine ⟨fun node member => ?_, w, run, rfl⟩
    rw [Node.mixesForms, compacted.dataOnly.slots node member, Bool.and_false]

end Compacted

theorem compacted_of_compact (doc stored : Document) (done : doc.compact = .ok stored) : stored.Compacted := by
  obtain ⟨runtime, _, lead, rfl⟩ := (doc.compact_eq_ok_iff stored).1 done
  exact compacted_stripped runtime lead

/-- Nothing is asked of the document that is compacted first. -/
theorem compact_compact (doc stored : Document) (done : doc.compact = .ok stored) :
    ((∃ again, stored.compact = .ok again) ↔ stored.Joined) ∧ (stored.compact = .ok stored ↔ stored.Consistent) := by
  have compacted := doc.compacted_of_compact stored done
  exact ⟨compacted.compact_ok_iff, compacted.compact_eq_self_iff⟩

-- A node that runs before another one, from whose data it works as well.
def paired : Document :=
  { empty with
    lastLinkId := some 2
    nodes := [
      { Node.plain (.number 1) "Load" with
        outputs := [{ OutputSlot.plain "TO" flowType with links := some [1], index := some 0 },
          { OutputSlot.plain "IMAGE" "IMAGE" with links := some [2], index := some 1 }] },
      { Node.plain (.number 2) "Save" with
        inputs := [{ InputSlot.plain "FROM" flowType with link := some 1 },
          { InputSlot.plain "image" "IMAGE" with link := some 2 }] }]
    links := [⟨1, .number 1, 0, .number 2, 0, flowType⟩, ⟨2, .number 1, 1, .number 2, 1, "IMAGE"⟩]
    supportsFlow := true }

theorem compact_compact_paired :
    ∃ stored, paired.compact = .ok stored ∧ stored.Joined ∧ stored.Consistent ∧ stored.compact = .ok stored := by
  -- Evaluated along the list: there are too many words to try them all.
  have counted : paired.stripped.linkIds.all fun id => decide (id.raise 1 ≤ (2 : LinkId).raise 1) := by decide
  rw [List.all_eq_true] at counted
  have consistent : paired.stripped.Consistent := {
    joinable := ⟨by decide, by decide, by decide, by decide, by decide, by decide⟩
    slots := by decide
    lastLinkId := fun id used => ⟨2, rfl, of_decide_eq_true (counted id used)⟩ }
  have joined : paired.stripped.Joined := fun flow stored =>
    ⟨consistent.joinable.leaving flow stored, consistent.joinable.entering flow stored⟩
  exact ⟨paired.stripped, rfl, joined, consistent, (compact_compact paired _ rfl).2.2 consistent⟩

-- The node is to run before one that is gone.
def astray : Document :=
  { paired with
    nodes := paired.nodes.take 1
    links := paired.links.take 1 }

theorem compact_compact_astray :
    ∃ stored, astray.compact = .ok stored ∧
      stored.compact = .error (.unknownNodes 1 (.number 1) (.number 2)) :=
  ⟨astray.stripped, rfl, rfl⟩

end Document
end Patchbay
