import Patchbay.Proofs.Sequencing.Weave

/-!
A runtime document made from stored data goes through its compact form unharmed. Main statement:
`expand_compact_expand`, with no condition on ids, endpoints or competing sequencing links.
-/
set_option autoImplicit false

namespace Patchbay

-- What neither form of a node changes.
def Node.outline (node : Node) : NodeId × String := (node.id, node.type)

namespace Document

-- Sequencing shows in stored lists only, not among the slots and links for data.
structure DataOnly (doc : Document) : Prop where
  slots : ∀ node ∈ doc.nodes, node.hasFlowSlot = false
  links : ∀ link ∈ doc.links, link.isFlow = false

def compactShifts (doc : Document) : NodeId → Nat × Nat := shiftsOf (·.compactCounts) doc.nodes

def startWeave (doc : Document) : Weave where
  nodes := doc.nodes.map (·.materializeSlots)
  links := doc.links.map (·.raiseSlots doc.compactShifts)
  next := doc.nextLinkId

def withWeave (doc : Document) (w : Weave) : Document :=
  { doc with
    nodes := w.nodes
    links := w.links
    flowLinks := none
    lastLinkId := lastLinkIdAfter doc.lastLinkId w.next
    supportsFlow := true }

theorem materialize_eq (doc : Document) (compact : doc.hasCompactFlow = true)
    (unmixed : doc.nodes.find? (·.mixesForms) = none) :
    doc.materialize =
      (doc.flowLinkList.foldlM (Weave.add doc.compactShifts) doc.startWeave).map doc.withWeave := by
  unfold materialize
  rw [compact, unmixed]
  change (doc.flowLinkList.foldlM (Weave.add doc.compactShifts) doc.startWeave >>= fun w =>
    pure (doc.withWeave w)) = _
  cases doc.flowLinkList.foldlM (Weave.add doc.compactShifts) doc.startWeave <;> rfl

theorem materialize_eq_ok_iff (doc runtime : Document) (compact : doc.hasCompactFlow = true) :
    doc.materialize = .ok runtime ↔
      (∀ node ∈ doc.nodes, node.mixesForms = false) ∧
        ∃ w, doc.flowLinkList.foldlM (Weave.add doc.compactShifts) doc.startWeave = .ok w ∧
          runtime = doc.withWeave w := by
  cases mixed : doc.nodes.find? (·.mixesForms) with
  | some node =>
    have bad := List.find?_some mixed
    constructor
    · intro run
      unfold materialize at run
      rw [compact, mixed] at run
      cases run
    · intro fine
      rw [fine.1 node (List.mem_of_find?_eq_some mixed)] at bad
      cases bad
  | none =>
    have fine : ∀ node ∈ doc.nodes, node.mixesForms = false := by
      simpa using List.find?_eq_none.1 mixed
    rw [materialize_eq doc compact mixed]
    cases run : doc.flowLinkList.foldlM (Weave.add doc.compactShifts) doc.startWeave with
    | error cause =>
      constructor
      · intro done
        cases done
      · intro some
        obtain ⟨_, _, done, _⟩ := some
        cases done
    | ok w =>
      constructor
      · intro done
        cases done
        exact ⟨fine, w, rfl, rfl⟩
      · intro some
        obtain ⟨_, _, done, rfl⟩ := some
        cases done
        rfl

theorem materialize_of_not_compact (doc : Document) (runtime : doc.hasCompactFlow = false) :
    doc.materialize = .ok doc := by
  unfold materialize
  rw [runtime]
  rfl

def leadingShifts (doc : Document) : NodeId → Nat × Nat := shiftsOf (·.leadingCounts) doc.nodes

def stripped (doc : Document) : Document :=
  { doc with
    nodes := doc.nodes.map (·.stripSlots)
    links := (doc.links.filter (!·.isFlow)).map (·.lowerSlots doc.leadingShifts)
    flowLinks := some ((doc.links.filter (·.isFlow)).map (·.toFlowLink))
    supportsFlow := true }

theorem strip_eq_ok (doc : Document) (lead : ∀ node ∈ doc.nodes, node.flowSlotsLead = true) :
    doc.strip = .ok doc.stripped := by
  have none : doc.nodes.find? (!·.flowSlotsLead) = none := by
    rw [List.find?_eq_none]
    intro node member
    simp [lead node member]
  unfold strip
  rw [none]
  rfl

/-! ### A document without sequencing slots of its own -/

section DataOnly

variable {doc : Document} (dataOnly : doc.DataOnly)

theorem startWeave_counted : doc.startWeave.Counted := by
  intro link member
  obtain ⟨stored, inside, rfl⟩ := List.mem_map.1 member
  apply raise_le_nextLinkId
  rw [usedIds, linkIds]
  simp only [List.mem_append, List.mem_map]
  exact .inl (.inl ⟨stored, inside, rfl⟩)

include dataOnly in
theorem compactShifts_eq : doc.compactShifts = shiftsOf (·.leadingCounts) doc.startWeave.nodes := by
  funext id
  simp only [compactShifts, shiftsOf, startWeave]
  rw [findLast?_map (·.materializeSlots) (fun _ => rfl)]
  cases found : findLast? doc.nodes id with
  | none => rfl
  | some node =>
    have counts := Node.leadingCounts_materializeSlots (dataOnly.slots node (mem_of_findLast? found))
    simp only [Option.map_some, Option.getD_some]
    exact counts.symm

include dataOnly in
theorem startWeave_reset : doc.startWeave.nodes.map (·.reset) = doc.startWeave.nodes := by
  simp only [startWeave, List.map_map]
  apply List.map_congr_left
  intro node member
  exact Node.reset_materializeSlots (dataOnly.slots node member)

include dataOnly in
theorem startWeave_data : ∀ link ∈ doc.startWeave.links, link.isFlow = false := by
  intro link member
  obtain ⟨stored, inside, rfl⟩ := List.mem_map.1 member
  exact dataOnly.links stored inside

include dataOnly in
theorem ran_flowLinks {w : Weave}
    (run : doc.flowLinkList.foldlM (Weave.add doc.compactShifts) doc.startWeave = .ok w) :
    ∃ added, Weave.Ran doc.compactShifts doc.startWeave w added :=
  Weave.ran_of_foldlM _ _ _ _ startWeave_counted (compactShifts_eq dataOnly) run

end DataOnly

section Ran

variable {doc : Document} {w : Weave} {added : List Link} (dataOnly : doc.DataOnly)
  (ran : Weave.Ran doc.compactShifts doc.startWeave w added)

include dataOnly ran in
theorem ran_reset : w.nodes.map (·.reset) = doc.startWeave.nodes :=
  ran.reset.trans (startWeave_reset dataOnly)

include dataOnly ran in
theorem ran_flowSlotsLead : ∀ node ∈ w.nodes, node.flowSlotsLead = true := by
  intro node member
  have start : node.reset ∈ doc.startWeave.nodes := by
    rw [← ran_reset dataOnly ran]
    exact List.mem_map_of_mem member
  obtain ⟨stored, inside, same⟩ := List.mem_map.1 start
  rw [← node.reset_flowSlotsLead, ← same]
  exact Node.flowSlotsLead_materializeSlots (dataOnly.slots stored inside)

include dataOnly ran in
theorem ran_leadingShifts : (doc.withWeave w).leadingShifts = doc.compactShifts := by
  rw [compactShifts_eq dataOnly]
  exact Weave.shiftsOf_eq_of_reset ran.reset

theorem compactShifts_stripped (runtime : Document) : runtime.stripped.compactShifts = runtime.leadingShifts := by
  funext id
  simp only [compactShifts, leadingShifts, shiftsOf, stripped]
  rw [findLast?_map (·.stripSlots) (fun _ => rfl), Option.map_map]
  simp only [Function.comp_def, Node.compactCounts_stripSlots]

include dataOnly ran in
theorem ran_dataLinks : (doc.withWeave w).links.filter (!·.isFlow) = doc.startWeave.links := by
  have start : doc.startWeave.links.filter (!·.isFlow) = doc.startWeave.links := by
    rw [List.filter_eq_self]
    intro link member
    simp [startWeave_data dataOnly link member]
  have none : added.filter (!·.isFlow) = [] := by
    rw [List.filter_eq_nil_iff]
    intro link member
    simp [ran.flow link member]
  rw [withWeave, ran.links, List.filter_append, start, none, List.append_nil]

include dataOnly ran in
theorem ran_flowLinks_again : (doc.withWeave w).links.filter (·.isFlow) = added := by
  have none : doc.startWeave.links.filter (·.isFlow) = [] := by
    rw [List.filter_eq_nil_iff]
    intro link member
    simp [startWeave_data dataOnly link member]
  have all : added.filter (·.isFlow) = added := by
    rw [List.filter_eq_self]
    exact ran.flow
  rw [withWeave, ran.links, List.filter_append, none, all, List.nil_append]

theorem raiseSlots_lowerSlots (shifts : NodeId → Nat × Nat) (link : Link) :
    ((link.raiseSlots shifts).lowerSlots shifts).raiseSlots shifts = link.raiseSlots shifts := by
  simp only [Link.raiseSlots, Link.lowerSlots, Word.raise_lower_raise]

include dataOnly ran in
theorem ran_links_stripped : (doc.withWeave w).stripped.links =
    doc.startWeave.links.map (·.lowerSlots doc.compactShifts) := by
  rw [stripped, ran_dataLinks dataOnly ran, ran_leadingShifts dataOnly ran]

include dataOnly ran in
theorem ran_flowLinkList_stripped :
    (doc.withWeave w).stripped.flowLinkList = added.map (·.toFlowLink) := by
  rw [flowLinkList, stripped, Option.getD_some, ran_flowLinks_again dataOnly ran]

include ran in
theorem last_above : ∀ id ∈ doc.lastLinkId, id.raise 1 ≤ w.next := by
  intro id same
  have used : id ∈ doc.usedIds := List.mem_append_right _ (by rw [same]; exact List.mem_singleton_self id)
  exact UInt64.le_trans (raise_le_nextLinkId doc used) ran.next

include ran in
theorem ran_nextLinkId : (doc.withWeave w).nextLinkId = w.next := by
  apply nextLinkId_of_counter _ doc.lastLinkId _ _ (last_above ran) rfl
  intro id used
  rw [linkIds] at used
  have used : id ∈ w.links.map (·.id) := by simpa [withWeave, flowLinkList] using used
  obtain ⟨link, member, rfl⟩ := List.mem_map.1 used
  exact ran.counted link member

include dataOnly ran in
theorem ran_nextLinkId_stripped : (doc.withWeave w).stripped.nextLinkId = w.next := by
  have ids : (doc.withWeave w).stripped.linkIds = w.links.map (·.id) := by
    rw [linkIds, ran_links_stripped dataOnly ran, ran_flowLinkList_stripped dataOnly ran, ran.links,
      List.map_append, List.map_map, List.map_map]
    rfl
  apply nextLinkId_of_counter _ doc.lastLinkId _ _ (last_above ran) rfl
  intro id used
  rw [ids] at used
  obtain ⟨link, member, rfl⟩ := List.mem_map.1 used
  exact ran.counted link member

include dataOnly ran in
/-- Starting again from the compact form, the counter alone stands elsewhere: where the first run left it. -/
theorem ran_startWeave_stripped :
    (doc.withWeave w).stripped.startWeave = doc.startWeave.countFrom w.next := by
  have nodes : (doc.withWeave w).stripped.startWeave.nodes = doc.startWeave.nodes := by
    rw [← ran_reset dataOnly ran]
    simp only [startWeave, stripped, withWeave, List.map_map]
    rfl
  have links : (doc.withWeave w).stripped.startWeave.links = doc.startWeave.links := by
    have again : doc.startWeave.links.map
        (fun link => (link.lowerSlots doc.compactShifts).raiseSlots doc.compactShifts) = doc.startWeave.links := by
      simp only [startWeave, List.map_map]
      apply List.map_congr_left
      intro link _
      exact raiseSlots_lowerSlots doc.compactShifts link
    rw [startWeave, ran_links_stripped dataOnly ran, compactShifts_stripped, ran_leadingShifts dataOnly ran,
      List.map_map]
    exact again
  have next : (doc.withWeave w).stripped.startWeave.next = w.next := ran_nextLinkId_stripped dataOnly ran
  exact Weave.ext nodes links next

include dataOnly ran in
theorem ran_materialize_stripped : (doc.withWeave w).stripped.materialize = .ok (doc.withWeave w) := by
  rw [materialize_eq_ok_iff _ _ (by rfl)]
  constructor
  · intro node member
    obtain ⟨old, inside, rfl⟩ := List.mem_map.1 member
    rw [Node.mixesForms, Node.hasFlowSlot_stripSlots old (ran_flowSlotsLead dataOnly ran old inside),
      Bool.and_false]
  · refine ⟨w, ?_, ?_⟩
    · rw [ran_startWeave_stripped dataOnly ran, ran_flowLinkList_stripped dataOnly ran,
        compactShifts_stripped, ran_leadingShifts dataOnly ran]
      exact ran.replay
    · have last : lastLinkIdAfter (lastLinkIdAfter doc.lastLinkId w.next) w.next =
          lastLinkIdAfter doc.lastLinkId w.next := lastLinkIdAfter_again _ _
      calc doc.withWeave w
          = { doc.withWeave w with lastLinkId := lastLinkIdAfter doc.lastLinkId w.next } := rfl
        _ = { doc.withWeave w with
              lastLinkId := lastLinkIdAfter (lastLinkIdAfter doc.lastLinkId w.next) w.next } := by rw [last]
        _ = (doc.withWeave w).stripped.withWeave w := rfl

include ran in
theorem ran_not_compact : (doc.withWeave w).hasCompactFlow = false := by
  have none : ∀ node ∈ w.nodes, (node.flowInputs, node.flowOutputs) = (none, none) := by
    intro node member
    have start : (node.flowInputs, node.flowOutputs) ∈
        doc.startWeave.nodes.map fun node => (node.flowInputs, node.flowOutputs) := by
      rw [← ran.stored]
      exact List.mem_map_of_mem (f := fun node : Node => (node.flowInputs, node.flowOutputs)) member
    simp only [startWeave, List.map_map] at start
    obtain ⟨stored, _, same⟩ := List.mem_map.1 start
    exact same.symm
  simp only [hasCompactFlow, withWeave, Option.isSome_none, Bool.false_or, List.any_eq_false]
  intro node member
  have both := none node member
  simp only [Prod.mk.injEq] at both
  simp [both.1, both.2]

end Ran

/-! ### Round trips -/

theorem materialize_strip (doc runtime : Document) (dataOnly : doc.DataOnly) (compact : doc.hasCompactFlow = true)
    (run : doc.materialize = .ok runtime) :
    runtime.hasCompactFlow = false ∧ runtime.supportsFlow = true ∧ runtime.strip = .ok runtime.stripped ∧
      runtime.stripped.materialize = .ok runtime := by
  obtain ⟨_, w, woven, rfl⟩ := (materialize_eq_ok_iff doc runtime compact).1 run
  obtain ⟨added, ran⟩ := ran_flowLinks dataOnly woven
  exact ⟨ran_not_compact ran, rfl, strip_eq_ok _ (ran_flowSlotsLead dataOnly ran),
    ran_materialize_stripped dataOnly ran⟩

theorem linkChain_view {α : Type} (view : Node → α)
    (origin : ∀ (id : LinkId) (node : Node), view (node.linkFirstFlowOutput id) = view node)
    (target : ∀ (id : LinkId) (node : Node), view (node.linkFirstFlowInput id) = view node)
    (chain : List FlowLink) (nodes : List Node) : (linkChain nodes chain).map view = nodes.map view := by
  induction chain generalizing nodes with
  | nil => rfl
  | cons link rest ih =>
    rw [linkChain, List.foldl_cons]
    refine (ih _).trans ?_
    rw [updateLast_map_view, updateLast_map_view]
    · exact fun node _ => origin link.id node
    · exact fun node _ => target link.id node

theorem withChainSlots_hasFlowSlot (r : Registry) (node : Node) :
    (node.withChainSlots r).hasFlowSlot = node.hasFlowSlot := by
  unfold Node.withChainSlots
  by_cases through : r.isPassThrough node.type
  · rw [if_pos through]
    rfl
  · rw [if_neg through]
    rfl

theorem addChain_dataOnly (doc : Document) (r : Registry) (dataOnly : doc.DataOnly) : (doc.addChain r).DataOnly := by
  refine ⟨?_, dataOnly.links⟩
  have flags : (doc.addChain r).nodes.map (·.hasFlowSlot) = doc.nodes.map (·.hasFlowSlot) := by
    refine (linkChain_view (·.hasFlowSlot) (fun _ _ => rfl) (fun _ _ => rfl) _ _).trans ?_
    rw [List.map_map]
    apply List.map_congr_left
    intro node _
    exact withChainSlots_hasFlowSlot r node
  intro node member
  have flag : node.hasFlowSlot ∈ doc.nodes.map (·.hasFlowSlot) := by
    rw [← flags]
    exact List.mem_map_of_mem member
  obtain ⟨stored, inside, same⟩ := List.mem_map.1 flag
  rw [← same]
  exact dataOnly.slots stored inside

theorem addChain_outline (doc : Document) (r : Registry) :
    (doc.addChain r).nodes.map (·.outline) = doc.nodes.map (·.outline) := by
  refine (linkChain_view (·.outline) (fun _ _ => rfl) (fun _ _ => rfl) _ _).trans ?_
  rw [List.map_map]
  apply List.map_congr_left
  intro node _
  by_cases through : r.isPassThrough node.type <;> simp [Node.withChainSlots, Node.outline, through]

-- Where an expansion of stored or legacy data starts: at the document, or at the document with its chain.
structure StartsAt (doc stored : Document) : Prop where
  dataOnly : stored.DataOnly
  compact : stored.hasCompactFlow = true
  outline : stored.nodes.map (·.outline) = doc.nodes.map (·.outline)
  links : stored.links = doc.links
  extra : stored.extra = doc.extra

theorem compact_of_not_needsChain {doc : Document} (dataOnly : doc.DataOnly)
    (form : doc.hasCompactFlow = true ∨ doc.supportsFlow = false) (chain : ¬ doc.needsChain) :
    doc.hasCompactFlow = true := by
  rcases form with compact | legacy
  · exact compact
  · have plain : doc.nodes.any (·.hasFlowSlot) = false := by
      rw [List.any_eq_false]
      intro node member
      simp [dataOnly.slots node member]
    simpa [needsChain, legacy, plain] using chain

theorem expand_from_compact (doc : Document) (r : Registry) (dataOnly : doc.DataOnly)
    (form : doc.hasCompactFlow = true ∨ doc.supportsFlow = false) :
    ∃ stored : Document, doc.StartsAt stored ∧ doc.expand r = stored.materialize := by
  by_cases chain : doc.needsChain
  · refine ⟨doc.addChain r, ⟨addChain_dataOnly doc r dataOnly, rfl, addChain_outline doc r, rfl, rfl⟩, ?_⟩
    rw [expand, if_pos chain]
  · refine ⟨doc, ⟨dataOnly, compact_of_not_needsChain dataOnly form chain, rfl, rfl, rfl⟩, ?_⟩
    rw [expand, if_neg chain]

theorem expand_of_supportsFlow (doc : Document) (r : Registry) (supports : doc.supportsFlow = true) :
    doc.expand r = doc.materialize := by
  have chain : doc.needsChain = false := by simp [needsChain, supports]
  rw [expand, chain]
  rfl

theorem compact_of_not_compact (doc : Document) (runtime : doc.hasCompactFlow = false) :
    doc.compact = doc.strip := by
  unfold compact
  rw [materialize_of_not_compact doc runtime]
  rfl

theorem expand_compact_expand (r : Registry) (doc runtime : Document) (dataOnly : doc.DataOnly)
    (form : doc.hasCompactFlow = true ∨ doc.supportsFlow = false) (expanded : doc.expand r = .ok runtime) :
    runtime.expand r = .ok runtime ∧
      ∃ stored, runtime.compact = .ok stored ∧ stored.compact = .ok stored ∧ stored.expand r = .ok runtime := by
  obtain ⟨start, begins, same⟩ := expand_from_compact doc r dataOnly form
  rw [same] at expanded
  obtain ⟨notCompact, supports, strip, again⟩ :=
    materialize_strip start runtime begins.dataOnly begins.compact expanded
  refine ⟨?_, runtime.stripped, ?_, ?_, ?_⟩
  · rw [expand_of_supportsFlow runtime r supports, materialize_of_not_compact runtime notCompact]
  · rw [compact_of_not_compact runtime notCompact, strip]
  · unfold Document.compact
    rw [again]
    exact strip
  · rw [expand_of_supportsFlow runtime.stripped r rfl, again]

-- All ids stand at the top, two stored links compete for one output, and a data link dangles.
def crowded : Document :=
  let slots (id : Int64) : Node :=
    { Node.plain (.number id) "Blur" with
      inputs := [.plain "image" "IMAGE"]
      outputs := [{ OutputSlot.plain "image" "IMAGE" with index := some 0 }]
      flowInputs := some [.plain "FROM"]
      flowOutputs := some [.plain "TO"] }
  { empty with
    nodes := [slots 1, slots 2, slots 3]
    links := [⟨Word.top, .number 1, 0, .number 2, 0, "IMAGE"⟩, ⟨7, .number 8, 4, .number 3, Word.top, "MASK"⟩]
    flowLinks := some [⟨Word.top, .number 1, 0, .number 2, 0, []⟩, ⟨9, .number 1, 0, .number 3, 0, []⟩,
      ⟨7, .number 2, 0, .number 3, 0, []⟩] }

theorem expand_compact_expand_crowded :
    crowded.DataOnly ∧ crowded.hasCompactFlow = true ∧
      ∃ runtime, crowded.expand .standard = .ok runtime ∧ runtime.links.length = 4 ∧
        runtime.expand .standard = .ok runtime ∧
          ∃ stored, runtime.compact = .ok stored ∧ stored.compact = .ok stored ∧
            stored.expand .standard = .ok runtime := by
  have dataOnly : crowded.DataOnly := ⟨by decide, by decide⟩
  exact ⟨dataOnly, rfl, _, rfl, rfl, expand_compact_expand .standard crowded _ dataOnly (.inl rfl) rfl⟩

end Document
end Patchbay
