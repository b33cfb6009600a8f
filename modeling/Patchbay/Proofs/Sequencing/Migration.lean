import Patchbay.Proofs.Sequencing.Chain
import Patchbay.Proofs.Sequencing.Sewing

/-!
What stored and legacy documents become. Where the data links and the slots of a document agree, all links and
slots of its runtime form agree, and its sequencing links join sequencing slots one to one.
-/
set_option autoImplicit false

namespace Patchbay

namespace Word

theorem le_toNat_raise (w : Word) {n : Nat} (bound : n < UInt64.size) : n ≤ (w.raise n).toNat := by
  rw [toNat_raise]
  omega

-- Below the top a slot that was moved up is at the place from which it came.
theorem toNat_raise_eq_iff (w : Word) {n i : Nat} (bound : n + i + 1 < UInt64.size) :
    (w.raise n).toNat = n + i ↔ w.toNat = i := by
  rw [toNat_raise]
  omega

end Word

theorem shiftsOf_of_mem (measure : Node → Nat × Nat) {nodes : List Node} (distinct : (nodes.map (·.id)).Nodup)
    {node : Node} (member : node ∈ nodes) : shiftsOf measure nodes node.id = measure node := by
  rw [shiftsOf, findLast?_of_nodup distinct member]
  rfl

namespace Document

def graph (doc : Document) : Graph := ⟨doc.nodes, doc.links, doc.nextLinkId⟩

/-- What the compiler relies on in a runtime document. -/
structure WellSequenced (doc : Document) : Prop where
  wired : doc.graph.Wired
  lead : ∀ node ∈ doc.nodes, node.flowSlotsLead = true
  joins : ∀ link ∈ doc.links, link.isFlow = true →
    (∃ output, doc.graph.outputAt? link.origin link.originSlot.toNat = some output ∧ output.isFlow = true) ∧
      ∃ input, doc.graph.inputAt? link.target link.targetSlot.toNat = some input ∧ input.isFlow = true
  oneSuccessor : ∀ id slot output, doc.graph.outputAt? id slot = some output → output.isFlow = true →
    ∀ a ∈ doc.links, ∀ b ∈ doc.links, a.leavesAt id slot → b.leavesAt id slot → a = b
  onePredecessor : ∀ id slot input, doc.graph.inputAt? id slot = some input → input.isFlow = true →
    ∀ a ∈ doc.links, ∀ b ∈ doc.links, a.entersAt id slot → b.entersAt id slot → a = b

/-! ### The start -/

-- Lists of slots are numbered by words, also with the sequencing slots ahead.
def SlotsFit (doc : Document) : Prop := ∀ node ∈ doc.nodes,
  node.compactInputs.length + node.inputs.length < UInt64.size ∧
    node.compactOutputs.length + node.outputs.length < UInt64.size

section Start

variable {doc : Document} (wired : doc.graph.Wired) (fits : doc.SlotsFit)

include fits in
theorem compactShifts_lt (id : NodeId) :
    (doc.compactShifts id).1 < UInt64.size ∧ (doc.compactShifts id).2 < UInt64.size := by
  rw [compactShifts, shiftsOf]
  cases found : findLast? doc.nodes id with
  | none => exact ⟨by decide, by decide⟩
  | some node =>
    have bounds := fits node (mem_of_findLast? found)
    simp only [Option.map_some, Option.getD_some, Node.compactCounts]
    omega

include wired in
theorem compactShifts_of_member {node : Node} (member : node ∈ doc.nodes) :
    doc.compactShifts node.id = (node.compactInputs.length, node.compactOutputs.length) :=
  shiftsOf_of_mem _ wired.nodeIds member

theorem exists_raised (held : LinkId) (there : Link → Prop) :
    (∃ link ∈ doc.startWeave.links, link.id = held ∧ there link) ↔
      ∃ link ∈ doc.links, link.id = held ∧ there (link.raiseSlots doc.compactShifts) := by
  constructor
  · rintro ⟨_, member, same, here⟩
    obtain ⟨link, inside, rfl⟩ := List.mem_map.1 member
    exact ⟨link, inside, same, here⟩
  · rintro ⟨link, inside, same, here⟩
    exact ⟨_, List.mem_map_of_mem inside, same, here⟩

include wired fits in
theorem startWeave_wired : doc.startWeave.graph.Wired := by
  have ids : doc.startWeave.graph.nodeIds = doc.graph.nodeIds := by
    simp only [Graph.nodeIds, Weave.graph, startWeave, graph, List.map_map]
    rfl
  have distinct : doc.startWeave.graph.nodeIds.Nodup := by
    rw [ids]
    exact wired.nodeIds
  constructor
  · exact distinct
  · simp only [Weave.graph, startWeave, List.map_map]
    exact wired.linkIds
  · intro id slot input found held
    obtain ⟨_, member, rfl, place⟩ := (Graph.inputAt?_eq_some_iff distinct id slot input).1 found
    obtain ⟨node, inside, rfl⟩ := List.mem_map.1 member
    have shift : (doc.compactShifts node.id).1 = node.compactInputs.length := by
      rw [compactShifts_of_member wired inside]
    have bounds := (fits node inside).1
    refine Iff.trans ?_ (exists_raised held (·.entersAt node.id slot)).symm
    by_cases ahead : slot < node.compactInputs.length
    · rw [Node.materialized_input_lt ahead] at place
      obtain ⟨stored, _, rfl⟩ := Option.map_eq_some_iff.1 place
      constructor
      · intro none
        cases none
      · rintro ⟨link, _, _, target, here⟩
        have beyond := link.targetSlot.le_toNat_raise (n := node.compactInputs.length) (by omega)
        simp only [Link.raiseSlots] at target here
        rw [target, shift] at here
        omega
    · obtain ⟨i, rfl⟩ := Nat.exists_eq_add_of_le (Nat.le_of_not_lt ahead)
      rw [Node.materialized_input_add] at place
      obtain ⟨bound, _⟩ := List.getElem?_eq_some_iff.1 place
      have before := (Graph.inputAt?_eq_some_iff wired.nodeIds node.id i input).2 ⟨node, inside, rfl, place⟩
      rw [wired.inputs node.id i input before held]
      have same : ∀ link : Link, link.entersAt node.id i ↔
          (link.raiseSlots doc.compactShifts).entersAt node.id (node.compactInputs.length + i) := by
        intro link
        refine and_congr_right fun target => ?_
        simp only [Link.raiseSlots]
        rw [target, shift, link.targetSlot.toNat_raise_eq_iff (by omega)]
      simp only [same]
      rfl
  · intro id slot output found
    obtain ⟨_, member, rfl, place⟩ := (Graph.outputAt?_eq_some_iff distinct id slot output).1 found
    obtain ⟨node, inside, rfl⟩ := List.mem_map.1 member
    have shift : (doc.compactShifts node.id).2 = node.compactOutputs.length := by
      rw [compactShifts_of_member wired inside]
    have bounds := (fits node inside).2
    by_cases ahead : slot < node.compactOutputs.length
    · rw [Node.materialized_output_lt ahead] at place
      obtain ⟨stored, _, rfl⟩ := Option.map_eq_some_iff.1 place
      refine ⟨.nil, fun held => Iff.trans ?_ (exists_raised held (·.leavesAt node.id slot)).symm⟩
      constructor
      · intro none
        cases none
      · rintro ⟨link, _, _, origin, here⟩
        have beyond := link.originSlot.le_toNat_raise (n := node.compactOutputs.length) (by omega)
        simp only [Link.raiseSlots] at origin here
        rw [origin, shift] at here
        omega
    · obtain ⟨i, rfl⟩ := Nat.exists_eq_add_of_le (Nat.le_of_not_lt ahead)
      rw [Node.materialized_output_add] at place
      obtain ⟨old, placeOld, rfl⟩ := Option.map_eq_some_iff.1 place
      obtain ⟨bound, _⟩ := List.getElem?_eq_some_iff.1 placeOld
      have before := (Graph.outputAt?_eq_some_iff wired.nodeIds node.id i old).2 ⟨node, inside, rfl, placeOld⟩
      obtain ⟨nodup, holds⟩ := wired.outputs node.id i old before
      refine ⟨nodup, fun held => Iff.trans (holds held) ?_⟩
      refine Iff.trans ?_ (exists_raised held (·.leavesAt node.id (node.compactOutputs.length + i))).symm
      have same : ∀ link : Link, link.leavesAt node.id i ↔
          (link.raiseSlots doc.compactShifts).leavesAt node.id (node.compactOutputs.length + i) := by
        intro link
        refine and_congr_right fun origin => ?_
        simp only [Link.raiseSlots]
        rw [origin, shift, link.originSlot.toNat_raise_eq_iff (by omega)]
      simp only [same]
      rfl

include wired fits in
theorem sewn_startWeave (dataOnly : doc.DataOnly) : Weave.Sewn doc.compactShifts [] doc.startWeave where
  wired := startWeave_wired wired fits
  counted := startWeave_counted
  fitting := compactShifts_eq dataOnly
  dataSlots link member _ := by
    obtain ⟨stored, _, rfl⟩ := List.mem_map.1 member
    exact ⟨stored.originSlot.le_toNat_raise (compactShifts_lt fits stored.origin).2,
      stored.targetSlot.le_toNat_raise (compactShifts_lt fits stored.target).1⟩
  flowSlots link member flow := by
    rw [startWeave_data dataOnly link member] at flow
    cases flow
  stored link member flow := by
    rw [startWeave_data dataOnly link member] at flow
    cases flow
  single a member _ _ flow := by
    rw [startWeave_data dataOnly a member] at flow
    cases flow
  settled := FlowLink.settled_nil _

end Start

/-! ### The end -/

theorem wellSequenced_of_sewn {doc : Document} {flows : List FlowLink} {w : Weave}
    (sewn : Weave.Sewn doc.compactShifts flows w) (lead : ∀ node ∈ w.nodes, node.flowSlotsLead = true) :
    (doc.withWeave w).WellSequenced where
  wired := ⟨sewn.wired.nodeIds, sewn.wired.linkIds, sewn.wired.inputs, sewn.wired.outputs⟩
  lead := lead
  joins link member flow := by
    obtain ⟨leaves, enters⟩ := sewn.flowSlots link member flow
    rw [sewn.fitting] at leaves enters
    obtain ⟨origin, insideOrigin, sameOrigin, output, foundOutput, isOutput⟩ := flowOutput_of_lt leaves
    obtain ⟨target, insideTarget, sameTarget, input, foundInput, isInput⟩ := flowInput_of_lt enters
    have distinct : (doc.withWeave w).graph.nodeIds.Nodup := sewn.wired.nodeIds
    constructor
    · exact ⟨output, (Graph.outputAt?_eq_some_iff distinct _ _ _).2 ⟨origin, insideOrigin, sameOrigin, foundOutput⟩,
        isOutput⟩
    · exact ⟨input, (Graph.inputAt?_eq_some_iff distinct _ _ _).2 ⟨target, insideTarget, sameTarget, foundInput⟩,
        isInput⟩
  oneSuccessor id slot output there flow a memberA b memberB leavesA leavesB := by
    have distinct : (doc.withWeave w).graph.nodeIds.Nodup := sewn.wired.nodeIds
    obtain ⟨node, member, rfl, found⟩ := (Graph.outputAt?_eq_some_iff distinct id slot output).1 there
    have inside := lt_of_flowOutput sewn.wired.nodeIds member (lead node member) found flow
    have sequencing : ∀ link ∈ w.links, link.leavesAt node.id slot → link.isFlow = true := by
      intro link linked leaves
      by_contra data
      have beyond := (sewn.dataSlots link linked (by simpa using data)).1
      rw [leaves.1, leaves.2, sewn.fitting] at beyond
      exact Nat.not_le_of_lt inside beyond
    apply sewn.single a memberA b memberB (sequencing a memberA leavesA) (sequencing b memberB leavesB)
    exact .inl ⟨leavesA.1.trans leavesB.1.symm, UInt64.toNat_inj.1 (leavesA.2.trans leavesB.2.symm)⟩
  onePredecessor id slot input there flow a memberA b memberB entersA entersB := by
    have distinct : (doc.withWeave w).graph.nodeIds.Nodup := sewn.wired.nodeIds
    obtain ⟨node, member, rfl, found⟩ := (Graph.inputAt?_eq_some_iff distinct id slot input).1 there
    have inside := lt_of_flowInput sewn.wired.nodeIds member (lead node member) found flow
    have sequencing : ∀ link ∈ w.links, link.entersAt node.id slot → link.isFlow = true := by
      intro link linked enters
      by_contra data
      have beyond := (sewn.dataSlots link linked (by simpa using data)).2
      rw [enters.1, enters.2, sewn.fitting] at beyond
      exact Nat.not_le_of_lt inside beyond
    apply sewn.single a memberA b memberB (sequencing a memberA entersA) (sequencing b memberB entersB)
    exact .inr ⟨entersA.1.trans entersB.1.symm, UInt64.toNat_inj.1 (entersA.2.trans entersB.2.symm)⟩

theorem wellSequenced_of_materialize {doc runtime : Document} (dataOnly : doc.DataOnly) (wired : doc.graph.Wired)
    (fits : doc.SlotsFit) (compact : doc.hasCompactFlow = true) (roomy : doc.startWeave.Roomy doc.flowLinkList)
    (made : doc.materialize = .ok runtime) :
    runtime.WellSequenced ∧ FlowLink.Settled doc.flowLinkList runtime.links := by
  obtain ⟨_, w, run, rfl⟩ := (materialize_eq_ok_iff doc runtime compact).1 made
  obtain ⟨added, ran⟩ := ran_flowLinks dataOnly run
  have sewn := (sewn_startWeave wired fits dataOnly).run roomy run
  exact ⟨wellSequenced_of_sewn sewn (ran_flowSlotsLead dataOnly ran), sewn.settled⟩

/-! ### Room for ids -/

theorem nextLinkId_le (doc : Document) {n : Nat} (small : n < UInt64.size)
    (room : ∀ id ∈ doc.usedIds, id.toNat + n < UInt64.size) : doc.nextLinkId.toNat + n ≤ UInt64.size := by
  rw [nextLinkId]
  cases largest : (doc.linkIds ++ doc.lastLinkId.toList).max? with
  | none =>
    simp only [UInt64.toNat_zero]
    omega
  | some id =>
    have below := room id (List.max?_eq_some_iff.1 largest).1
    simp only [Word.toNat_raise]
    omega

theorem roomy_of_run {doc : Document} {w : Weave}
    (small : doc.nodes.length + doc.flowLinkList.length < UInt64.size)
    (room : ∀ id ∈ doc.usedIds, id.toNat + (doc.nodes.length + doc.flowLinkList.length) < UInt64.size)
    (run : doc.flowLinkList.foldlM (Weave.add doc.compactShifts) doc.startWeave = .ok w) :
    doc.startWeave.Roomy doc.flowLinkList := by
  have next := doc.nextLinkId_le small room
  cases flows : doc.flowLinkList with
  | nil => exact .inr ⟨.nil, fun _ none => nomatch none⟩
  | cons flow rest =>
    left
    -- The first link names a node, so there is one.
    have nodes : doc.nodes ≠ [] := by
      intro none
      rw [flows, List.foldlM_cons, Weave.add] at run
      simp only [startWeave, none, List.map_nil] at run
      cases run
    have some := List.length_pos_of_ne_nil nodes
    rw [← flows]
    refine ⟨?_, fun later member => ?_⟩
    · simp only [startWeave]
      omega
    · apply raise_le_nextLinkId
      rw [usedIds, linkIds]
      exact List.mem_append_left _ (List.mem_append_right _ (List.mem_map_of_mem member))

/-! ### Legacy documents -/

theorem placeQueue_length_le (successors : NodeId → List NodeId) (counts : List (NodeId × Nat))
    (waiting queue : List NodeId) : (placeQueue successors counts waiting queue).length ≤ waiting.length := by
  fun_induction placeQueue successors counts waiting queue with
  | case1 => exact Nat.le_refl _
  | case2 counts waiting id queue member counts' ready released ih =>
    have less := length_without_lt member
    rw [List.length_cons]
    omega
  | case3 counts waiting id queue absent ih => exact ih

theorem flowOrder_length_le (doc : Document) (r : Registry) : (doc.flowOrder r).length ≤ doc.nodes.length := by
  refine Nat.le_trans (placeQueue_length_le _ _ _ _) ?_
  refine Nat.le_trans (List.length_filter_le _ _) ?_
  exact Nat.le_of_eq (List.length_map _)

-- The links of a chain change nothing but what the stored sequencing slots of the nodes say.
theorem addChain_views (doc : Document) (r : Registry) :
    (doc.addChain r).nodes.map (fun node => (node.id, node.inputs, node.outputs)) =
      doc.nodes.map fun node => (node.id, node.inputs, node.outputs) := by
  refine (linkChain_view _ (fun _ _ => rfl) (fun _ _ => rfl) _ _).trans ?_
  rw [List.map_map]
  apply List.map_congr_left
  intro node _
  by_cases through : r.isPassThrough node.type <;> simp [Node.withChainSlots, through]

theorem addChain_counts (doc : Document) (r : Registry) :
    ∀ node ∈ (doc.addChain r).nodes, node.compactInputs.length ≤ 1 ∧ node.compactOutputs.length ≤ 1 := by
  intro node member
  have listed : (node.id, node.compactCounts) ∈
      (doc.nodes.map (·.withChainSlots r)).map fun node => (node.id, node.compactCounts) := by
    rw [← doc.addChain_compactCounts r]
    exact List.mem_map_of_mem (f := fun node : Node => (node.id, node.compactCounts)) member
  obtain ⟨_, inside, same⟩ := List.mem_map.1 listed
  obtain ⟨stored, _, rfl⟩ := List.mem_map.1 inside
  have few : (stored.withChainSlots r).compactCounts.1 ≤ 1 ∧ (stored.withChainSlots r).compactCounts.2 ≤ 1 := by
    by_cases through : r.isPassThrough stored.type <;>
      simp [Node.withChainSlots, Node.compactCounts, Node.compactInputs, Node.compactOutputs, through]
  have counts : (stored.withChainSlots r).compactCounts = node.compactCounts := congrArg Prod.snd same
  rw [counts] at few
  exact few

section Slots

variable {a b : Document} (links : a.links = b.links)
variable (slots : a.nodes.map (fun node => (node.id, node.inputs, node.outputs)) =
  b.nodes.map fun node => (node.id, node.inputs, node.outputs))

include slots in
theorem exists_alike {node : Node} (member : node ∈ a.nodes) :
    ∃ other ∈ b.nodes, other.id = node.id ∧ other.inputs = node.inputs ∧ other.outputs = node.outputs := by
  have listed : (node.id, node.inputs, node.outputs) ∈ b.nodes.map fun node => (node.id, node.inputs, node.outputs) := by
    rw [← slots]
    exact List.mem_map.2 ⟨node, member, rfl⟩
  obtain ⟨other, inside, same⟩ := List.mem_map.1 listed
  cases other
  cases same
  exact ⟨_, inside, rfl, rfl, rfl⟩

include links slots in
theorem wired_of_slots (wired : b.graph.Wired) : a.graph.Wired := by
  have ids : a.graph.nodeIds = b.graph.nodeIds := by
    have first := congrArg (List.map Prod.fst) slots
    rw [List.map_map, List.map_map] at first
    exact first
  have distinct : a.graph.nodeIds.Nodup := ids ▸ wired.nodeIds
  have sameLinks : a.graph.links = b.graph.links := links
  constructor
  · exact distinct
  · rw [sameLinks]
    exact wired.linkIds
  · intro id slot input found
    obtain ⟨node, member, rfl, place⟩ := (Graph.inputAt?_eq_some_iff distinct id slot input).1 found
    obtain ⟨other, inside, same, inputs, _⟩ := exists_alike slots member
    rw [sameLinks]
    apply wired.inputs
    exact (Graph.inputAt?_eq_some_iff wired.nodeIds _ slot input).2 ⟨other, inside, same, inputs ▸ place⟩
  · intro id slot output found
    obtain ⟨node, member, rfl, place⟩ := (Graph.outputAt?_eq_some_iff distinct id slot output).1 found
    obtain ⟨other, inside, same, _, outputs⟩ := exists_alike slots member
    rw [sameLinks]
    apply wired.outputs
    exact (Graph.outputAt?_eq_some_iff wired.nodeIds _ slot output).2 ⟨other, inside, same, outputs ▸ place⟩

end Slots

theorem roomy_addChain (doc : Document) (r : Registry) (small : doc.nodes.length < UInt64.size)
    (room : ∀ id ∈ doc.usedIds, id.toNat + doc.nodes.length < UInt64.size) :
    (doc.addChain r).startWeave.Roomy (doc.addChain r).flowLinkList := by
  right
  have next := doc.nextLinkId_le small room
  have short := doc.flowOrder_length_le r
  have chainRoom : doc.nextLinkId.toNat + (doc.flowOrder r).length ≤ UInt64.size := by omega
  refine ⟨chainLinks_ids_nodup chainRoom, fun flow member => ?_⟩
  have first := UInt64.le_iff_toNat_le.1 (chainLinks_id_lt chainRoom member).1
  have notTop := UInt64.lt_iff_toNat_lt.1 (chainLinks_id_lt chainRoom member).2
  rw [Word.toNat_top] at notTop
  rw [Weave.holds, List.any_eq_false]
  intro link linked same
  obtain ⟨stored, inside, rfl⟩ := List.mem_map.1 linked
  have used : stored.id ∈ doc.usedIds := List.mem_append_left _ (List.mem_append_left _ (List.mem_map_of_mem inside))
  have above := (Word.raise_le_iff _ _ _).1 (doc.raise_le_nextLinkId used)
  have below := room stored.id used
  have equal : stored.id.toNat = flow.id.toNat := congrArg UInt64.toNat (eq_of_beq same)
  omega

/-- Stored and legacy documents become well-sequenced ones, and a stored sequencing link is left out only where an
earlier one holds one of its slots. -/
theorem expand_wellSequenced (r : Registry) (doc runtime : Document) (dataOnly : doc.DataOnly)
    (form : doc.hasCompactFlow = true ∨ doc.supportsFlow = false) (wired : doc.graph.Wired)
    (fits : ∀ node ∈ doc.nodes, node.compactInputs.length + node.inputs.length + 1 < UInt64.size ∧
      node.compactOutputs.length + node.outputs.length + 1 < UInt64.size)
    (small : doc.nodes.length + doc.flowLinkList.length < UInt64.size)
    (room : ∀ id ∈ doc.usedIds, id.toNat + (doc.nodes.length + doc.flowLinkList.length) < UInt64.size)
    (expanded : doc.expand r = .ok runtime) :
    runtime.WellSequenced ∧ FlowLink.Settled doc.flowLinkList runtime.links := by
  by_cases chain : doc.needsChain
  · rw [expand, if_pos chain] at expanded
    have fitsChain : (doc.addChain r).SlotsFit := by
      intro node member
      obtain ⟨stored, inside, _, inputs, outputs⟩ := exists_alike (doc.addChain_views r) member
      have bounds := fits stored inside
      have few := doc.addChain_counts r node member
      rw [inputs, outputs] at bounds
      omega
    have roomy := doc.roomy_addChain r (by omega) fun id used => by
      have below := room id used
      omega
    obtain ⟨sequenced, _⟩ := wellSequenced_of_materialize (addChain_dataOnly doc r dataOnly)
      (wired_of_slots (b := doc) rfl (doc.addChain_views r) wired) fitsChain rfl roomy expanded
    have none : doc.flowLinks = none := by
      simp only [needsChain, hasCompactFlow, Bool.and_eq_true, Bool.not_eq_true', Bool.or_eq_false_iff] at chain
      exact Option.isNone_iff_eq_none.1 (by simp [← Option.not_isSome, chain.1.2.1])
    refine ⟨sequenced, ?_⟩
    rw [flowLinkList, none]
    exact FlowLink.settled_nil _
  · rw [expand, if_neg chain] at expanded
    have compact := compact_of_not_needsChain dataOnly form chain
    obtain ⟨_, w, run, _⟩ := (materialize_eq_ok_iff doc runtime compact).1 expanded
    have fitsStored : doc.SlotsFit := by
      intro node member
      have bounds := fits node member
      omega
    exact wellSequenced_of_materialize dataOnly wired fitsStored compact (roomy_of_run small room run) expanded

-- The first stored link has the id of the data link, and the second one wants the output that the first one has.
def contested : Document :=
  let blur (id : Int64) (link : Option LinkId) (links : Option (List LinkId)) : Node :=
    { Node.plain (.number id) "Blur" with
      inputs := [{ InputSlot.plain "image" "IMAGE" with link := link }]
      outputs := [{ OutputSlot.plain "image" "IMAGE" with links := links }]
      flowInputs := some [.plain "FROM"]
      flowOutputs := some [.plain "TO"] }
  { empty with
    nodes := [blur 1 none (some [5]), blur 2 (some 5) none, blur 3 none none]
    links := [⟨5, .number 1, 0, .number 2, 0, "IMAGE"⟩]
    flowLinks := some [⟨5, .number 1, 0, .number 2, 0, []⟩, ⟨9, .number 1, 0, .number 3, 0, []⟩,
      ⟨7, .number 2, 0, .number 3, 0, []⟩] }

theorem expand_wellSequenced_contested :
    contested.DataOnly ∧ contested.hasCompactFlow = true ∧ contested.graph.Wired ∧
      ∃ runtime, contested.expand .standard = .ok runtime ∧
        runtime.links.map (fun link => (link.id, link.originSlot, link.targetSlot)) =
          [(5, 1, 1), (10, 0, 0), (7, 0, 0)] ∧
        runtime.WellSequenced ∧ FlowLink.Settled contested.flowLinkList runtime.links := by
  have dataOnly : contested.DataOnly := ⟨by decide +kernel, by decide +kernel⟩
  have wired : contested.graph.Wired := by decide +kernel
  -- Evaluated along the list: there are too many words to try them all.
  have room : contested.usedIds.all fun id =>
      decide (id.toNat + (contested.nodes.length + contested.flowLinkList.length) < UInt64.size) := by decide +kernel
  rw [List.all_eq_true] at room
  refine ⟨dataOnly, rfl, wired, _, rfl, by decide +kernel, ?_⟩
  exact expand_wellSequenced .standard contested _ dataOnly (.inl rfl) wired (by decide +kernel)
    (by decide +kernel) (fun id used => of_decide_eq_true (room id used)) rfl

end Document
end Patchbay
