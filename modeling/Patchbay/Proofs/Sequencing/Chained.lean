import Patchbay.Proofs.Sequencing.Chain

/-!
A document from before sequencing, slot by slot after it got its chain. One sequencing link leads from each node of
the flow order to the next, every node but the pass-through nodes holds the links at its first slots, and all else
is where it was, one slot further at these nodes.
-/
set_option autoImplicit false

namespace Patchbay

-- The link of a chain that comes to a node, and the one that goes on from it, by their ids.
def comingTo (chain : List Link) (id : NodeId) : Option LinkId := (chain.find? (·.target == id)).map (·.id)

def goingOnFrom (chain : List Link) (id : NodeId) : Option LinkId := (chain.find? (·.origin == id)).map (·.id)

/-- The node with a sequencing input and a sequencing output ahead of its data slots. -/
def Node.inChain (before after : Option LinkId) (node : Node) : Node :=
  { node with
    inputs := { InputSlot.plain "FROM" flowType with link := before } :: node.inputs
    outputs := { OutputSlot.plain "TO" flowType with links := after.map ([·]), index := some 0 } ::
      node.outputs.map (·.raiseIndex 1) }

/-- The same link, one slot further at each end that is among these nodes. -/
structure Link.MovedUp (ids : List NodeId) (link moved : Link) : Prop where
  id : moved.id = link.id
  origin : moved.origin = link.origin
  target : moved.target = link.target
  type : moved.type = link.type
  originSlot : moved.originSlot.toNat = link.originSlot.toNat + if link.origin ∈ ids then 1 else 0
  targetSlot : moved.targetSlot.toNat = link.targetSlot.toNat + if link.target ∈ ids then 1 else 0

namespace Document

/-- What becomes of a document from before sequencing: a chain along its flow order stands behind the data links, and
each node but the pass-through nodes has one sequencing input and one sequencing output, which hold the links of the
chain. -/
structure ChainedAs (doc : Document) (r : Registry) (runtime : Document) (chain : List Link) : Prop where
  links : ∃ data, runtime.links = data ++ chain ∧ List.Forall₂ (Link.MovedUp (doc.orderCandidates r)) doc.links data
  sequencing : runtime.links.filter (·.isFlow) = chain
  length : chain.length = (doc.flowOrder r).length - 1
  joins : ∀ i a b, (doc.flowOrder r)[i]? = some a → (doc.flowOrder r)[i + 1]? = some b →
    ∃ id : LinkId, id.toNat = doc.nextLinkId.toNat + i ∧ chain[i]? = some ⟨id, a, 0, b, 0, flowType⟩
  nodes : runtime.nodes = doc.nodes.map fun node =>
    if r.isPassThrough node.type then node
    else node.inChain (comingTo chain node.id) (goingOnFrom chain node.id)
  slots : ∀ node ∈ runtime.nodes, node.flowInputCount = (if r.isPassThrough node.type then 0 else 1) ∧
    node.flowOutputCount = if r.isPassThrough node.type then 0 else 1

-- The stored counter stands at every link id or above it.
def CoversLinkIds (doc : Document) : Prop :=
  ∀ link ∈ doc.links, ∃ last, doc.lastLinkId = some last ∧ link.id ≤ last

variable {doc : Document} {r : Registry}

/-! ### Links -/

theorem passThrough_mem_iff (distinct : doc.nodeIds.Nodup) {node : Node} (member : node ∈ doc.nodes) :
    node.id ∈ doc.passThroughIds r ↔ r.isPassThrough node.type = true := by
  constructor
  · intro through
    obtain ⟨other, inside, same⟩ := List.mem_map.1 through
    obtain ⟨inside, passes⟩ := List.mem_filter.1 inside
    have one := findLast?_of_nodup distinct inside
    rw [same, findLast?_of_nodup distinct member, Option.some.injEq] at one
    rwa [one]
  · exact fun passes => List.mem_map_of_mem (List.mem_filter.2 ⟨member, passes⟩)

theorem compactShifts_addChain_of_other (distinct : doc.nodeIds.Nodup) {id : NodeId}
    (other : id ∉ doc.orderCandidates r) : (doc.addChain r).compactShifts id = (0, 0) := by
  rw [compactShifts_addChain_eq, shiftsOf,
    findLast?_map (·.withChainSlots r) (fun node => (withChainSlots_kept r node).1)]
  cases found : findLast? doc.nodes id with
  | none => rfl
  | some node =>
    have member := mem_of_findLast? found
    have here := id_of_findLast? found
    -- A node that is no candidate is a pass-through node.
    have through : r.isPassThrough node.type = true := by
      by_contra stops
      refine other (mem_orderCandidates_iff.2 ⟨here ▸ List.mem_map_of_mem member, fun passing => stops ?_⟩)
      exact (passThrough_mem_iff distinct member).1 (here ▸ passing)
    simp [Node.withChainSlots, through, Node.compactCounts, Node.compactInputs, Node.compactOutputs]

theorem movedUp_raiseSlots (distinct : doc.nodeIds.Nodup) {link : Link} (originSlot : link.originSlot < Word.top)
    (targetSlot : link.targetSlot < Word.top) :
    link.MovedUp (doc.orderCandidates r) (link.raiseSlots (doc.addChain r).compactShifts) := by
  rw [UInt64.lt_iff_toNat_lt, Word.toNat_top] at originSlot targetSlot
  have shifts : ∀ id, (doc.addChain r).compactShifts id =
      if id ∈ doc.orderCandidates r then (1, 1) else (0, 0) := by
    intro id
    by_cases member : id ∈ doc.orderCandidates r
    · rw [if_pos member, compactShifts_addChain member]
    · rw [if_neg member, compactShifts_addChain_of_other distinct member]
  refine ⟨rfl, rfl, rfl, rfl, ?_, ?_⟩
  · change (link.originSlot.raise ((doc.addChain r).compactShifts link.origin).2).toNat = _
    rw [shifts, Word.toNat_raise]
    by_cases member : link.origin ∈ doc.orderCandidates r <;> simp only [member, if_true, if_false] <;> omega
  · change (link.targetSlot.raise ((doc.addChain r).compactShifts link.target).1).toNat = _
    rw [shifts, Word.toNat_raise]
    by_cases member : link.target ∈ doc.orderCandidates r <;> simp only [member, if_true, if_false] <;> omega

theorem length_chainLinks (next : LinkId) (order : List NodeId) : (chainLinks next order).length = order.length - 1 := by
  have origins := congrArg List.length (chainLinks_origins next order)
  rwa [List.length_map, List.length_map, List.length_dropLast] at origins

theorem getElem?_chainLinks {next : LinkId} {order : List NodeId} (room : next.toNat + order.length ≤ UInt64.size)
    {i : Nat} {a b : NodeId} (first : order[i]? = some a) (second : order[i + 1]? = some b) :
    ∃ id : LinkId, id.toNat = next.toNat + i ∧ (chainLinks next order)[i]? = some ⟨id, a, 0, b, 0, []⟩ := by
  induction order generalizing next i with
  | nil => cases first
  | cons origin rest ih =>
    cases rest with
    | nil => cases second
    | cons target rest =>
      cases i with
      | zero =>
        cases first
        cases second
        exact ⟨next, rfl, rfl⟩
      | succ i =>
        simp only [List.length_cons] at room ih
        have raised : (next.raise 1).toNat = next.toNat + 1 := by
          rw [Word.toNat_raise]
          omega
        have rest_room : (next.raise 1).toNat + (rest.length + 1) ≤ UInt64.size := by omega
        obtain ⟨id, number, found⟩ := ih rest_room first second
        exact ⟨id, by omega, found⟩

/-! ### Nodes -/

theorem linkChain_materializeSlots (nodes : List Node) (chain : List FlowLink) :
    (linkChain nodes chain).map (·.materializeSlots) = nodes.map (·.materializeSlots) := by
  refine linkChain_view (·.materializeSlots) (fun id node => ?_) (fun id node => ?_) chain nodes
  · rcases node with ⟨_, _, _, _, _, _, _, _ | _ | _, _⟩ <;> rfl
  · rcases node with ⟨_, _, _, _, _, _, _ | _ | _, _, _⟩ <;> rfl

theorem materialized_withChainSlots {node : Node} (inputs : node.flowInputs = none) (outputs : node.flowOutputs = none) :
    (node.withChainSlots r).materializeSlots = if r.isPassThrough node.type then node else node.inChain none none := by
  by_cases through : r.isPassThrough node.type
  · have kept : ∀ slot : OutputSlot, slot.raiseIndex 0 = slot := by
      rintro ⟨_, _, _, _ | index, _⟩
      · rfl
      · simp [OutputSlot.raiseIndex, Word.raise_zero]
    rw [if_pos through, Node.withChainSlots, if_pos through]
    cases node
    cases inputs
    cases outputs
    simp [Node.materializeSlots, Node.compactInputs, Node.compactOutputs, kept]
  · rw [if_neg through, Node.withChainSlots, if_neg through]
    cases node
    cases inputs
    cases outputs
    rfl

end Document

section Hang

variable {chain : List FlowLink}

theorem Node.hangAll_of_untouched {node : Node}
    (untouched : ∀ flow ∈ chain, flow.origin ≠ node.id ∧ flow.target ≠ node.id) :
    node.hangAll chain = node := by
  induction chain with
  | nil => rfl
  | cons flow rest ih =>
    obtain ⟨origin, target⟩ := untouched flow List.mem_cons_self
    have first : node.hang flow = node := by
      simp only [Node.hang, if_neg origin.symm, if_neg target.symm]
    rw [Node.hangAll, List.foldl_cons, first]
    exact ih fun other member => untouched other (List.mem_cons_of_mem _ member)

-- Links that end at the first slots of nodes, one at each: a node holds one of them there, and none elsewhere.
theorem filter_first_slot (node : FlowLink → NodeId) (slot : FlowLink → Word) (slots : ∀ flow ∈ chain, slot flow = 0)
    (distinct : (chain.map fun flow => (node flow, slot flow)).Nodup) (id : NodeId) (i : Nat) :
    chain.filter (fun flow => node flow == id && (slot flow).toNat == i) =
      if i = 0 then (chain.find? (node · == id)).toList else [] := by
  by_cases first : i = 0
  · subst first
    rw [if_pos rfl, ← filter_eq_find? (node · == id) _ chain distinct]
    · apply List.filter_congr
      intro flow member
      simp [slots flow member]
    · intro a memberA b memberB hitA hitB
      rw [slots a memberA, slots b memberB, eq_of_beq hitA, eq_of_beq hitB]
  · rw [if_neg first, List.filter_eq_nil_iff]
    intro flow member
    simp [slots flow member, Ne.symm first]

theorem find?_toLink (test : Link → Bool) (chain : List FlowLink) :
    ((chain.map (·.toLink)).find? test).map (·.id) = (chain.find? (test ·.toLink)).map (·.id) := by
  rw [List.find?_map, Option.map_map]
  rfl

theorem Node.hangAll_inChain (slots : ∀ flow ∈ chain, flow.originSlot = 0 ∧ flow.targetSlot = 0)
    (origins : (chain.map fun flow => (flow.origin, flow.originSlot)).Nodup)
    (targets : (chain.map fun flow => (flow.target, flow.targetSlot)).Nodup) (node : Node) :
    (node.inChain none none).hangAll chain = node.inChain (comingTo (chain.map (·.toLink)) node.id)
      (goingOnFrom (chain.map (·.toLink)) node.id) := by
  have inputs : ((node.inChain none none).hangAll chain).inputs =
      (node.inChain (comingTo (chain.map (·.toLink)) node.id) none).inputs := by
    apply List.ext_getElem?
    intro i
    rw [Node.hangAll_input]
    have entering : chain.filter (·.enters node.id i) = if i = 0 then (chain.find? (·.target == node.id)).toList else [] :=
      filter_first_slot (·.target) (·.targetSlot) (fun flow member => (slots flow member).2) targets node.id i
    rw [show (node.inChain none none).id = node.id from rfl, entering, comingTo, find?_toLink]
    cases i with
    | zero => cases found : chain.find? (·.target == node.id) <;> simp [Node.inChain, FlowLink.toLink, found]
    | succ i => cases found : node.inputs[i]? <;> simp [Node.inChain, found]
  have outputs : ((node.inChain none none).hangAll chain).outputs =
      (node.inChain none (goingOnFrom (chain.map (·.toLink)) node.id)).outputs := by
    apply List.ext_getElem?
    intro i
    rw [Node.hangAll_output]
    have leaving : chain.filter (·.leaves node.id i) = if i = 0 then (chain.find? (·.origin == node.id)).toList else [] :=
      filter_first_slot (·.origin) (·.originSlot) (fun flow member => (slots flow member).1) origins node.id i
    rw [show (node.inChain none none).id = node.id from rfl, leaving, goingOnFrom, find?_toLink]
    cases i with
    | zero =>
      cases found : chain.find? (·.origin == node.id) <;>
        simp [Node.inChain, FlowLink.toLink, OutputSlot.attach, OutputSlot.linkIds, found]
    | succ i => cases found : node.outputs[i]? <;> simp [Node.inChain, found]
  have kept : (node.inChain none none).hangAll chain = { node.inChain none none with
      inputs := ((node.inChain none none).hangAll chain).inputs
      outputs := ((node.inChain none none).hangAll chain).outputs } := by
    rw [Node.hangAll_eq]
  rw [kept, inputs, outputs]
  rfl

end Hang

namespace Document

variable {doc : Document} {r : Registry}

theorem no_compact_slots (plain : doc.hasCompactFlow = false) {node : Node} (member : node ∈ doc.nodes) :
    node.flowInputs = none ∧ node.flowOutputs = none := by
  rw [hasCompactFlow, Bool.or_eq_false_iff, List.any_eq_false] at plain
  have none := plain.2 node member
  rw [Bool.or_eq_true, not_or, Bool.not_eq_true, Bool.not_eq_true, Option.isSome_eq_false_iff,
    Option.isSome_eq_false_iff] at none
  exact ⟨Option.isNone_iff_eq_none.1 none.1, Option.isNone_iff_eq_none.1 none.2⟩

theorem chained_nodes (plain : doc.hasCompactFlow = false) (distinct : doc.nodeIds.Nodup) :
    (doc.chained r).nodes = doc.nodes.map fun node =>
      if r.isPassThrough node.type then node
      else node.inChain (comingTo ((doc.addChain r).flowLinkList.map (·.toLink)) node.id)
        (goingOnFrom ((doc.addChain r).flowLinkList.map (·.toLink)) node.id) := by
  have candidates : (doc.orderCandidates r).Nodup := distinct.filter _
  have ids : ((doc.addChain r).nodes.map (·.id)).Nodup := by
    rw [show (doc.addChain r).nodes.map (·.id) = doc.nodeIds from (nodeIds_of_outline (addChain_outline doc r)).1]
    exact distinct
  have bare : (doc.addChain r).nodes.map (·.materializeSlots) =
      doc.nodes.map fun node => (node.withChainSlots r).materializeSlots := by
    refine (linkChain_materializeSlots _ _).trans ?_
    rw [List.map_map]
    rfl
  have hung : (doc.chained r).nodes =
      ((doc.addChain r).nodes.map (·.materializeSlots)).map (·.hangAll (doc.addChain r).flowLinkList) := by
    refine (mapLast_of_nodup _ _ _ ids).trans ?_
    rw [List.map_map]
    rfl
  rw [hung, bare, List.map_map]
  apply List.map_congr_left
  intro node member
  obtain ⟨inputs, outputs⟩ := no_compact_slots plain member
  rw [Function.comp, materialized_withChainSlots inputs outputs]
  by_cases through : r.isPassThrough node.type
  · rw [if_pos through, if_pos through]
    have passing := (passThrough_mem_iff distinct member).2 through
    refine Node.hangAll_of_untouched fun flow linked => ?_
    obtain ⟨origin, target⟩ := candidates_of_mem_chain candidates linked
    exact ⟨fun same => (mem_orderCandidates_iff.1 origin).2 (same ▸ passing),
      fun same => (mem_orderCandidates_iff.1 target).2 (same ▸ passing)⟩
  · rw [if_neg through, if_neg through]
    have order := flowOrder_nodup candidates
    refine Node.hangAll_inChain (fun flow linked => slots_of_mem_chainLinks linked) ?_ ?_ node
    · rw [chainLinks_origins]
      exact (order.sublist (List.dropLast_sublist _)).map fun _ _ same => congrArg Prod.fst same
    · rw [chainLinks_targets]
      exact (order.sublist (List.tail_sublist _)).map fun _ _ same => congrArg Prod.fst same

theorem counts_inChain {node : Node} (bare : node.hasFlowSlot = false) (before after : Option LinkId) :
    (node.inChain before after).flowInputCount = 1 ∧ (node.inChain before after).flowOutputCount = 1 := by
  obtain ⟨inputs, outputs⟩ := (node.hasFlowSlot_eq_false_iff).1 bare
  constructor
  · have none : node.inputs.countP (·.isFlow) = 0 := List.countP_eq_zero.2 fun slot member => by simp [inputs slot member]
    rw [Node.flowInputCount, Node.inChain, List.countP_cons, none]
    rfl
  · have none : (node.outputs.map (·.raiseIndex 1)).countP (·.isFlow) = 0 :=
      List.countP_eq_zero.2 fun slot member => by simp [Node.raised_outputs_noFlow bare 1 slot member]
    rw [Node.flowOutputCount, Node.inChain, List.countP_cons, none]
    rfl

/-! ### The counter -/

-- Ids below the largest one are below the counter, so only that id can be left uncovered.
theorem covered_of_lt {link : Link} {doc : Document} {w : Weave} (counted : w.Counted) (member : link ∈ w.links)
    (below : link.id < Word.top) : ∃ last, (doc.withWeave w).lastLinkId = some last ∧ link.id ≤ last := by
  have above := (Word.raise_le_iff _ _ _).1 (counted link member)
  rw [UInt64.lt_iff_toNat_lt, Word.toNat_top] at below
  have pos : 0 < w.next := by
    rw [UInt64.lt_iff_toNat_lt, UInt64.toNat_zero]
    omega
  refine ⟨max (doc.lastLinkId.getD 0) (w.next.lower 1), if_pos pos, ?_⟩
  rw [UInt64.le_iff_toNat_le, Word.toNat_max, Word.toNat_lower]
  omega

theorem nextLinkId_eq_top {doc : Document} (used : Word.top ∈ doc.links.map (·.id)) : doc.nextLinkId = Word.top := by
  have above := doc.raise_le_nextLinkId (List.mem_append_left _ (List.mem_append_left _ used))
  rw [Word.raise_top] at above
  exact Word.eq_top_of_top_le above

theorem flowOrder_of_empty (empty : doc.nodes = []) : doc.flowOrder r = [] := by
  have none : doc.orderCandidates r = [] := by
    rw [orderCandidates, nodeIds, empty]
    rfl
  have placed := flowOrder_perm (r := r) (none ▸ List.nodup_nil : (doc.orderCandidates r).Nodup)
  rw [none] at placed
  exact placed.eq_nil

theorem addChain_lastLinkId_of_empty (empty : doc.nodes = []) : (doc.addChain r).lastLinkId = doc.lastLinkId := by
  rw [addChain, flowOrder_of_empty empty]
  rfl

theorem lastLinkIdAfter_some (last next : LinkId) :
    ∃ after, lastLinkIdAfter (some last) next = some after ∧ last ≤ after := by
  rw [lastLinkIdAfter]
  by_cases pos : 0 < next
  · exact ⟨_, if_pos pos, Word.le_max_left last _⟩
  · exact ⟨last, if_neg pos, UInt64.le_refl last⟩

theorem eq_top_of_lastLinkIdAfter {last : Option LinkId} {next : LinkId}
    (largest : lastLinkIdAfter last next = some Word.top) : last = some Word.top := by
  rw [lastLinkIdAfter] at largest
  by_cases pos : 0 < next
  · rw [if_pos pos, Option.some.injEq, ← UInt64.toNat_inj, Word.toNat_max, Word.toNat_lower, Word.toNat_top] at largest
    have bound := next.toNat_lt
    cases last with
    | none =>
      rw [Option.getD_none, UInt64.toNat_zero] at largest
      simp only [UInt64.size] at largest
      omega
    | some id =>
      rw [Option.getD_some] at largest
      rw [Option.some.injEq, ← UInt64.toNat_inj, Word.toNat_top]
      simp only [UInt64.size] at largest ⊢
      omega
  · rwa [if_neg pos] at largest

theorem coversLinkIds_chained_iff (dataOnly : doc.DataOnly) (distinct : (doc.orderCandidates r).Nodup)
    (roomy : doc.nextLinkId.toNat + (doc.orderCandidates r).length ≤ UInt64.size)
    (room : doc.nextLinkId.toNat + doc.nodes.length < UInt64.size) : (doc.chained r).CoversLinkIds ↔
      (doc.nodes = [] → Word.top ∈ doc.links.map (·.id) → doc.lastLinkId = some Word.top) := by
  constructor
  · intro covers empty used
    obtain ⟨link, member, largest⟩ := List.mem_map.1 used
    have stored : link.raiseSlots (doc.addChain r).compactShifts ∈ (doc.chained r).links := by
      rw [chained_links]
      exact List.mem_append_left _ (List.mem_map_of_mem member)
    obtain ⟨last, counter, above⟩ := covers _ stored
    have above : link.id ≤ last := above
    have same : last = Word.top := Word.eq_top_of_top_le (largest ▸ above)
    rw [same] at counter
    rw [← addChain_lastLinkId_of_empty empty]
    exact eq_top_of_lastLinkIdAfter counter
  · intro capped link member
    by_cases below : link.id < Word.top
    · exact covered_of_lt (ran_chained dataOnly distinct roomy).counted member below
    · have largest : link.id = Word.top := Word.eq_top_of_top_le (UInt64.not_lt.1 below)
      rw [chained_links, List.mem_append] at member
      rcases member with data | chain
      · obtain ⟨stored, inside, rfl⟩ := List.mem_map.1 data
        have used : Word.top ∈ doc.links.map (·.id) := List.mem_map.2 ⟨stored, inside, largest⟩
        -- The counter stands at the end of its range, so that there is no room for a node.
        rw [nextLinkId_eq_top used, Word.toNat_top] at room
        have empty : doc.nodes = [] := List.eq_nil_of_length_eq_zero (by omega)
        obtain ⟨after, counter, above⟩ := lastLinkIdAfter_some Word.top (doc.addChain r).nextLinkId
        rw [← capped empty used, ← addChain_lastLinkId_of_empty empty] at counter
        exact ⟨after, counter, largest ▸ above⟩
      · obtain ⟨flow, inside, rfl⟩ := List.mem_map.1 chain
        exact absurd (chainLinks_id_lt (flowOrder_room distinct roomy) inside).2 below

/-- A document from before sequencing can always be brought into runtime form, and gets one whole chain along its flow
order. The stored counter covers all link ids, unless there is no node and a link has the largest id of all. -/
theorem expand_chain (r : Registry) (doc : Document) (legacy : doc.supportsFlow = false)
    (plain : doc.hasCompactFlow = false) (dataOnly : doc.DataOnly) (distinct : doc.nodeIds.Nodup)
    (room : doc.nextLinkId.toNat + doc.nodes.length < UInt64.size)
    (below : ∀ link ∈ doc.links, link.originSlot < Word.top ∧ link.targetSlot < Word.top) :
    ∃ runtime chain, doc.expand r = .ok runtime ∧ doc.ChainedAs r runtime chain ∧
      (runtime.CoversLinkIds ↔
        (doc.nodes = [] → Word.top ∈ doc.links.map (·.id) → doc.lastLinkId = some Word.top)) := by
  have candidates : (doc.orderCandidates r).Nodup := distinct.filter _
  have fewer : (doc.orderCandidates r).length ≤ doc.nodes.length := by
    rw [orderCandidates]
    exact Nat.le_trans (List.length_filter_le _ _) (Nat.le_of_eq (List.length_map _))
  have roomy : doc.nextLinkId.toNat + (doc.orderCandidates r).length ≤ UInt64.size := by omega
  have nodes := chained_nodes (r := r) plain distinct
  refine ⟨doc.chained r, (doc.addChain r).flowLinkList.map (·.toLink),
    expand_eq_chained dataOnly candidates roomy legacy plain, ?_,
    coversLinkIds_chained_iff dataOnly candidates roomy room⟩
  constructor
  · refine ⟨_, chained_links, ?_⟩
    rw [List.forall₂_map_right_iff, List.forall₂_same]
    exact fun link member => movedUp_raiseSlots distinct (below link member).1 (below link member).2
  · have data : (doc.addChain r).startWeave.links.filter (·.isFlow) = [] := by
      rw [List.filter_eq_nil_iff]
      intro link member
      simp [startWeave_data (addChain_dataOnly doc r dataOnly) link member]
    have sequencing : ((doc.addChain r).flowLinkList.map (·.toLink)).filter (·.isFlow) =
        (doc.addChain r).flowLinkList.map (·.toLink) := by
      rw [List.filter_eq_self]
      intro link member
      obtain ⟨flow, _, rfl⟩ := List.mem_map.1 member
      rfl
    rw [chained_links, List.filter_append, sequencing]
    exact congrArg (· ++ _) data
  · rw [List.length_map]
    exact length_chainLinks _ _
  · intro i a b first second
    obtain ⟨id, number, found⟩ := getElem?_chainLinks (flowOrder_room candidates roomy) first second
    refine ⟨id, number, ?_⟩
    rw [List.getElem?_map]
    exact congrArg (Option.map (·.toLink)) found
  · exact nodes
  · intro node member
    rw [nodes] at member
    obtain ⟨stored, inside, rfl⟩ := List.mem_map.1 member
    have bare := dataOnly.slots stored inside
    by_cases through : r.isPassThrough stored.type
    · rw [if_pos through, if_pos through]
      simpa [Node.hasFlowSlot] using bare
    · rw [if_neg through]
      have type : ∀ before after, (stored.inChain before after).type = stored.type := fun _ _ => rfl
      rw [type, if_neg through]
      exact counts_inChain bare _ _

-- Two nodes and a reroute between them, with one more link out of a node that is not there.
def unchained : Document :=
  let data (id : LinkId) (origin target : Int64) (slot : Word) : Link :=
    ⟨id, .number origin, 0, .number target, slot, "IMAGE"⟩
  { empty with
    nodes := [.plain (.number 4) "Blur", .plain (.number 5) "Reroute", .plain (.number 2) "Load"]
    links := [data 8 2 5 0, data 3 5 4 0, data 6 9 4 1] }

theorem expand_chain_unchained : unchained.supportsFlow = false ∧ unchained.hasCompactFlow = false ∧
    unchained.DataOnly ∧ unchained.nodeIds.Nodup ∧
    unchained.nextLinkId.toNat + unchained.nodes.length < UInt64.size ∧
    (∀ link ∈ unchained.links, link.originSlot < Word.top ∧ link.targetSlot < Word.top) ∧
    ∃ runtime chain, unchained.expand .standard = .ok runtime ∧ unchained.ChainedAs .standard runtime chain ∧
      (runtime.CoversLinkIds ↔ (unchained.nodes = [] → Word.top ∈ unchained.links.map (·.id) →
        unchained.lastLinkId = some Word.top)) := by
  have dataOnly : unchained.DataOnly := ⟨by decide, by decide⟩
  have below : ∀ link ∈ unchained.links, link.originSlot < Word.top ∧ link.targetSlot < Word.top := by decide
  exact ⟨rfl, rfl, dataOnly, by decide, by decide, below,
    expand_chain .standard unchained rfl rfl dataOnly (by decide) (by decide) below⟩

-- No node, and a link that has the largest id.
def deserted : Document :=
  { empty with links := [⟨.ofNat (UInt64.size - 1), .number 1, 0, .number 2, 0, "IMAGE"⟩] }

/-- The counter comes to stand below the one link that there is. -/
theorem expand_deserted_uncovered : deserted.supportsFlow = false ∧ deserted.hasCompactFlow = false ∧
    deserted.DataOnly ∧ deserted.nodeIds.Nodup ∧ deserted.nextLinkId.toNat + deserted.nodes.length < UInt64.size ∧
    (∀ link ∈ deserted.links, link.originSlot < Word.top ∧ link.targetSlot < Word.top) ∧
    ∃ runtime, deserted.expand .standard = .ok runtime ∧ ∃ link ∈ runtime.links, ∃ last,
      runtime.lastLinkId = some last ∧ last < link.id := by
  have order : deserted.flowOrder .standard = [] := flowOrder_of_empty rfl
  refine ⟨rfl, rfl, ⟨by decide, by decide⟩, by decide, by decide, by decide, ?_⟩
  rw [expand, if_pos (by decide : deserted.needsChain = true), addChain, order]
  exact ⟨_, rfl, _, List.mem_singleton_self _, _, rfl, by decide⟩

end Document
end Patchbay
