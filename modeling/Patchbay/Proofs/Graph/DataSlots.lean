import Patchbay.Proofs.Graph.Forwards
import Patchbay.Proofs.Sequencing.Sewing

/-!
Forwarding and the sequencing slots ahead of the data slots. Taking all sequencing out of a graph leaves the
producers of data inputs as they are, provided that every bypassed node takes the same input whether slots are
counted from the first one or from the first data slot. Main statement: `resolveInput_dataPart`.
-/
set_option autoImplicit false

namespace Patchbay

/-! ### The input behind an output of a bypassed node -/

namespace Node

-- Where the data input here is a candidate for its type, no input before it is one.
def FirstOfType (node : Node) (i : Nat) : Prop :=
  ∀ slot ∈ node.inputs[i]?, slot.isFlow = false → ∀ j < i, node.isDataInput slot.type j = false

instance decidableFirstOfType (node : Node) (i : Nat) : Decidable (node.FirstOfType i) :=
  inferInstanceAs (Decidable (∀ slot ∈ node.inputs[i]?, slot.isFlow = false → _))

/-- Counted from the first slot and counted from the first data slot, the place of the output is the same one
among the inputs; or the inputs at both places would be taken anyway. -/
def StraightThrough (node : Node) (slot : Word) : Prop :=
  node.flowInputCount = node.flowOutputCount ∨
    node.FirstOfType slot.toNat ∧ node.FirstOfType (node.flowInputCount + (slot.toNat - node.flowOutputCount))

instance decidableStraightThrough (node : Node) (slot : Word) : Decidable (node.StraightThrough slot) :=
  inferInstanceAs (Decidable (_ ∨ _ ∧ _))

theorem isDataInput_iff (node : Node) (type : String) (i : Nat) :
    node.isDataInput type i = true ↔ ∃ slot, node.inputs[i]? = some slot ∧ slot.isFlow = false ∧ slot.type = type := by
  simp [isDataInput, Option.any_eq_true]

def firstDataInput? (node : Node) (type : String) : Option Nat :=
  (List.range node.inputs.length).find? (node.isDataInput type)

def preferredInput? (node : Node) (type : String) (i : Nat) : Option Nat :=
  if node.isDataInput type i then some i else node.firstDataInput? type

theorem bypassInput?_eq (node : Node) (type : String) (slot : Word) :
    node.bypassInput? type slot = node.preferredInput? type slot.toNat := by
  rw [bypassInput?, List.find?_cons, preferredInput?, firstDataInput?]
  cases node.isDataInput type slot.toNat <;> rfl

theorem firstDataInput?_eq_some_iff (node : Node) (type : String) (i : Nat) :
    node.firstDataInput? type = some i ↔
      node.isDataInput type i = true ∧ ∀ j < i, node.isDataInput type j = false := by
  rw [firstDataInput?, List.find?_range_eq_some]
  constructor
  · rintro ⟨data, _, earlier⟩
    exact ⟨data, by simpa using earlier⟩
  · rintro ⟨data, earlier⟩
    obtain ⟨slot, found, _⟩ := (node.isDataInput_iff type i).1 data
    exact ⟨data, List.mem_range.2 (List.getElem?_eq_some_iff.1 found).1, by simpa using earlier⟩

theorem FirstOfType.isDataInput {node : Node} {i : Nat} (first : node.FirstOfType i) {type : String}
    (data : node.isDataInput type i = true) : node.firstDataInput? type = some i := by
  obtain ⟨slot, found, real, rfl⟩ := (node.isDataInput_iff type i).1 data
  exact (node.firstDataInput?_eq_some_iff slot.type i).2 ⟨data, first slot found real⟩

-- The preference for such a place makes no difference.
theorem firstOfType_iff (node : Node) (i : Nat) :
    node.FirstOfType i ↔ ∀ type, node.preferredInput? type i = node.firstDataInput? type := by
  constructor
  · intro first type
    by_cases data : node.isDataInput type i = true
    · rw [preferredInput?, if_pos data, first.isDataInput data]
    · rw [preferredInput?, if_neg data]
  · intro same slot found real j before
    have data : node.isDataInput slot.type i = true := (node.isDataInput_iff slot.type i).2 ⟨slot, found, real, rfl⟩
    have first := same slot.type
    rw [preferredInput?, if_pos data] at first
    exact ((node.firstDataInput?_eq_some_iff slot.type i).1 first.symm).2 j before

theorem firstOfType_of_alike {node : Node} {a b : Nat} (apart : a ≠ b)
    (alike : ∀ type, node.preferredInput? type a = node.preferredInput? type b) : node.FirstOfType a := by
  refine (node.firstOfType_iff a).2 fun type => ?_
  have same := alike type
  by_cases data : node.isDataInput type a = true
  · by_cases other : node.isDataInput type b = true
    · simp only [preferredInput?, if_pos data, if_pos other, Option.some.injEq] at same
      exact absurd same apart
    · rw [same, preferredInput?, if_neg other]
  · rw [preferredInput?, if_neg data]

/-- Two places are preferred alike for every type only if they are the same or neither preference matters. -/
theorem preferredInput?_alike_iff (node : Node) (a b : Nat) :
    (∀ type, node.preferredInput? type a = node.preferredInput? type b) ↔
      a = b ∨ node.FirstOfType a ∧ node.FirstOfType b := by
  constructor
  · intro alike
    by_cases apart : a = b
    · exact .inl apart
    · exact .inr ⟨firstOfType_of_alike apart alike, firstOfType_of_alike (Ne.symm apart) fun type => (alike type).symm⟩
  · rintro (rfl | ⟨firstA, firstB⟩) type
    · rfl
    · rw [(node.firstOfType_iff a).1 firstA, (node.firstOfType_iff b).1 firstB]

section Lead

variable {node : Node} (lead : node.flowSlotsLead = true)

include lead in
theorem leadingFlowInputs_eq : node.leadingFlowInputs = node.flowInputCount := by
  rw [flowSlotsLead, Bool.and_eq_true, beq_iff_eq, beq_iff_eq] at lead
  exact lead.1

include lead in
theorem leadingFlowOutputs_eq : node.leadingFlowOutputs = node.flowOutputCount := by
  rw [flowSlotsLead, Bool.and_eq_true, beq_iff_eq, beq_iff_eq] at lead
  exact lead.2

include lead in
theorem isFlow_eq_false_iff {i : Nat} {slot : InputSlot} (found : node.inputs[i]? = some slot) :
    slot.isFlow = false ↔ node.flowInputCount ≤ i := by
  have count : (node.inputs.takeWhile (·.isFlow)).length = node.inputs.countP (·.isFlow) := leadingFlowInputs_eq lead
  constructor
  · intro real
    by_contra ahead
    rw [flowInputCount, ← count] at ahead
    obtain ⟨other, there, flow⟩ := getElem?_of_lt_takeWhile (Nat.lt_of_not_le ahead)
    rw [found, Option.some.injEq] at there
    rw [there, flow] at real
    cases real
  · intro behind
    by_contra flow
    have ahead := lt_takeWhile_of_count count found (by simpa using flow)
    rw [flowInputCount] at behind
    omega

include lead in
theorem input_withoutLeadingFlow (i : Nat) :
    node.withoutLeadingFlow.inputs[i]? = node.inputs[node.flowInputCount + i]? := by
  rw [withoutLeadingFlow, List.getElem?_drop, leadingFlowInputs_eq lead]

include lead in
theorem isDataInput_withoutLeadingFlow (type : String) (i : Nat) :
    node.withoutLeadingFlow.isDataInput type i = node.isDataInput type (node.flowInputCount + i) := by
  rw [isDataInput, isDataInput, input_withoutLeadingFlow lead]

include lead in
theorem firstDataInput?_withoutLeadingFlow (type : String) :
    (node.withoutLeadingFlow.firstDataInput? type).map (node.flowInputCount + ·) = node.firstDataInput? type := by
  have length : node.inputs.length = node.flowInputCount + node.withoutLeadingFlow.inputs.length := by
    have fits : node.flowInputCount ≤ node.inputs.length := List.countP_le_length
    rw [withoutLeadingFlow, List.length_drop, leadingFlowInputs_eq lead]
    omega
  have ahead : (List.range node.flowInputCount).find? (node.isDataInput type) = none := by
    rw [List.find?_eq_none]
    intro i inside data
    obtain ⟨slot, found, real, _⟩ := (node.isDataInput_iff type i).1 data
    have behind := (isFlow_eq_false_iff lead found).1 real
    have inside := List.mem_range.1 inside
    omega
  rw [firstDataInput?, firstDataInput?, length, List.range_add, List.find?_append, ahead, Option.none_or,
    List.find?_map]
  congr 2
  funext i
  exact isDataInput_withoutLeadingFlow lead type i

include lead in
theorem flowInputCount_withoutLeadingFlow : node.withoutLeadingFlow.flowInputCount = 0 := by
  rw [flowInputCount, List.countP_eq_zero]
  intro slot member
  obtain ⟨i, found⟩ := List.mem_iff_getElem?.1 member
  rw [input_withoutLeadingFlow lead] at found
  simp [(isFlow_eq_false_iff lead found).2 (Nat.le_add_right _ _)]

include lead in
theorem flowOutputCount_withoutLeadingFlow : node.withoutLeadingFlow.flowOutputCount = 0 := by
  have count : (node.outputs.takeWhile (·.isFlow)).length = node.outputs.countP (·.isFlow) := leadingFlowOutputs_eq lead
  rw [flowOutputCount, List.countP_eq_zero]
  intro slot member
  obtain ⟨old, inside, rfl⟩ := List.mem_map.1 member
  rw [leadingFlowOutputs, drop_length_takeWhile] at inside
  exact ne_true_of_eq_false (dropWhile_none_of_count _ _ count old inside)

include lead in
/-- Exactly what a bypassed node needs to take the same input for every type. -/
theorem bypassInput?_withoutLeadingFlow_iff {slot : Word} (data : node.flowOutputCount ≤ slot.toNat) :
    (∀ type, node.bypassInput? type slot =
      (node.withoutLeadingFlow.bypassInput? type (slot.lower node.flowOutputCount)).map (node.flowInputCount + ·)) ↔
    node.StraightThrough slot := by
  have other : ∀ type, (node.withoutLeadingFlow.bypassInput? type (slot.lower node.flowOutputCount)).map
      (node.flowInputCount + ·) =
        node.preferredInput? type (node.flowInputCount + (slot.toNat - node.flowOutputCount)) := by
    intro type
    rw [bypassInput?_eq, Word.toNat_lower, preferredInput?, preferredInput?, isDataInput_withoutLeadingFlow lead,
      ← firstDataInput?_withoutLeadingFlow lead]
    split <;> rfl
  simp only [other]
  simp only [bypassInput?_eq, preferredInput?_alike_iff]
  have even : slot.toNat = node.flowInputCount + (slot.toNat - node.flowOutputCount) ↔
      node.flowInputCount = node.flowOutputCount := by omega
  rw [even, StraightThrough]

end Lead

end Node

/-! ### A graph without its sequencing -/

namespace Graph

def leadingShifts (g : Graph) : NodeId → Nat × Nat := shiftsOf (·.leadingCounts) g.nodes

/-- The graph without sequencing slots and links; data slots are counted from zero. -/
def dataPart (g : Graph) : Graph where
  nodes := g.nodes.map (·.withoutLeadingFlow)
  links := (g.links.filter (!·.isFlow)).map (·.lowerSlots g.leadingShifts)
  nextLinkId := g.nextLinkId

/-- The number of an output among the data outputs of its node. -/
def dataOutput (g : Graph) (producer : Producer) : Producer :=
  ⟨producer.node, producer.slot.lower (g.leadingShifts producer.node).2⟩

-- Sequencing slots stand first, and links of either kind keep to slots of their kind.
structure SlotsApart (g : Graph) : Prop where
  lead : ∀ node ∈ g.nodes, node.flowSlotsLead = true
  numbered : ∀ node ∈ g.nodes, node.inputs.length + node.outputs.length < UInt64.size
  dataLinks : ∀ link ∈ g.links, link.isFlow = false → ∀ node ∈ g.nodes, node.id = link.origin →
    node.flowOutputCount ≤ link.originSlot.toNat ∧ link.originSlot.toNat < node.outputs.length
  flowLinks : ∀ link ∈ g.links, link.isFlow = true → ∀ node ∈ g.nodes, node.id = link.target →
    link.targetSlot.toNat < node.flowInputCount

instance decidableSlotsApart (g : Graph) : Decidable g.SlotsApart :=
  decidable_of_iff ((∀ node ∈ g.nodes, node.flowSlotsLead = true) ∧
      (∀ node ∈ g.nodes, node.inputs.length + node.outputs.length < UInt64.size) ∧
      (∀ link ∈ g.links, link.isFlow = false → ∀ node ∈ g.nodes, node.id = link.origin →
        node.flowOutputCount ≤ link.originSlot.toNat ∧ link.originSlot.toNat < node.outputs.length) ∧
      ∀ link ∈ g.links, link.isFlow = true → ∀ node ∈ g.nodes, node.id = link.target →
        link.targetSlot.toNat < node.flowInputCount)
    ⟨fun ⟨lead, numbered, dataLinks, flowLinks⟩ => ⟨lead, numbered, dataLinks, flowLinks⟩,
      fun apart => ⟨apart.lead, apart.numbered, apart.dataLinks, apart.flowLinks⟩⟩

def BypassesStraight (g : Graph) (r : Registry) : Prop :=
  ∀ link ∈ g.links, link.isFlow = false → ∀ node ∈ g.nodes, node.id = link.origin →
    r.participation node = .bypassed → node.StraightThrough link.originSlot

instance decidableBypassesStraight (g : Graph) (r : Registry) : Decidable (g.BypassesStraight r) :=
  inferInstanceAs (Decidable (∀ link ∈ g.links, link.isFlow = false → ∀ node ∈ g.nodes, node.id = link.origin →
    r.participation node = .bypassed → node.StraightThrough link.originSlot))

section DataPart

variable {g : Graph} {r : Registry}

theorem node?_dataPart (id : NodeId) : g.dataPart.node? id = (g.node? id).map (·.withoutLeadingFlow) :=
  g.node?_map (·.withoutLeadingFlow) (fun _ => rfl) id

theorem nodeIds_dataPart : g.dataPart.nodeIds = g.nodeIds := by
  rw [nodeIds, nodeIds, dataPart, List.map_map]
  rfl

variable (wired : g.Wired)

include wired in
theorem leadingShifts_of_mem {node : Node} (member : node ∈ g.nodes) (lead : node.flowSlotsLead = true) :
    g.leadingShifts node.id = (node.flowInputCount, node.flowOutputCount) := by
  rw [leadingShifts, Weave.shiftsOf_of_findLast? (findLast?_of_nodup wired.nodeIds member), Node.leadingCounts,
    Node.leadingFlowInputs_eq lead, Node.leadingFlowOutputs_eq lead]

include wired in
theorem link?_dataPart {id : LinkId} {link : Link} (found : g.link? id = some link) (data : link.isFlow = false) :
    g.dataPart.link? id = some (link.lowerSlots g.leadingShifts) := by
  obtain ⟨member, rfl⟩ := wired.link?_eq_some_iff.1 found
  have kept : (g.links.filter (!·.isFlow)).find? (·.id == link.id) = some link := by
    cases first : (g.links.filter (!·.isFlow)).find? (·.id == link.id) with
    | none =>
      have none := List.find?_eq_none.1 first link (List.mem_filter.2 ⟨member, by simp [data]⟩)
      simp at none
    | some other =>
      have same : other.id = link.id := by simpa using List.find?_some first
      rw [wired.link_unique (List.mem_filter.1 (List.mem_of_find?_eq_some first)).1 member same]
  rw [link?, dataPart, List.find?_map]
  exact congrArg (Option.map (·.lowerSlots g.leadingShifts)) kept

theorem link?_dataPart_of_none {id : LinkId} (unknown : g.link? id = none) : g.dataPart.link? id = none := by
  rw [link?, List.find?_eq_none] at unknown ⊢
  intro link member
  obtain ⟨old, inside, rfl⟩ := List.mem_map.1 member
  exact unknown old (List.mem_filter.1 inside).1

variable (apart : g.SlotsApart)

include wired apart in
/-- What feeds a data input is a data link, and it feeds the input of the same number without sequencing. -/
theorem incoming?_dataPart {node : Node} (found : g.node? node.id = some node) (i : Nat) :
    g.dataPart.incoming? node.id i =
      (g.incoming? node.id (node.flowInputCount + i)).map (·.lowerSlots g.leadingShifts) ∧
    ∀ link, g.incoming? node.id (node.flowInputCount + i) = some link → link ∈ g.links ∧ link.isFlow = false := by
  have member := List.mem_of_find?_eq_some found
  have lead := apart.lead node member
  have data : ∀ link, g.incoming? node.id (node.flowInputCount + i) = some link →
      link ∈ g.links ∧ link.isFlow = false := by
    intro link fed
    obtain ⟨_, inside, enters⟩ := wired.incoming?_eq_some_iff.1 fed
    refine ⟨inside, ?_⟩
    by_contra flow
    have below := apart.flowLinks link inside (by simpa using flow) node member enters.1.symm
    have place := enters.2
    omega
  refine ⟨?_, data⟩
  have slots : node.withoutLeadingFlow.inputLink i = node.inputLink (node.flowInputCount + i) := by
    rw [Node.inputLink, Node.inputLink, Node.input_withoutLeadingFlow lead]
  rw [incoming?, incoming?, node?_dataPart, found, Option.map_some, Option.bind_some, Option.bind_some, slots]
  rw [incoming?, found, Option.bind_some] at data
  cases held : node.inputLink (node.flowInputCount + i) with
  | none => rfl
  | some id =>
    rw [held, Option.bind_some] at data
    rw [Option.bind_some, Option.bind_some]
    cases known : g.link? id with
    | none => exact link?_dataPart_of_none known
    | some link => exact link?_dataPart wired known (data link known).2

section Step

variable {node : Node} {link : Link} (member : link ∈ g.links) (data : link.isFlow = false)
  (found : g.node? link.origin = some node)

include wired apart found in
theorem originShift_eq : (g.leadingShifts link.origin).2 = node.flowOutputCount := by
  have inside := List.mem_of_find?_eq_some found
  rw [← id_of_node? found, leadingShifts_of_mem wired inside (apart.lead node inside)]

include wired apart member data found in
theorem virtualInput?_dataPart : node.virtualInput? link.originSlot =
    (node.withoutLeadingFlow.virtualInput? (link.lowerSlots g.leadingShifts).originSlot).map
      (node.flowInputCount + ·) := by
  have inside := List.mem_of_find?_eq_some found
  have lead := apart.lead node inside
  obtain ⟨above, below⟩ := apart.dataLinks link member data node inside (id_of_node? found)
  have size := apart.numbered node inside
  have count : node.flowInputCount ≤ node.inputs.length := List.countP_le_length
  have place : node.withoutLeadingFlow.virtualInput? (link.lowerSlots g.leadingShifts).originSlot =
      some (link.originSlot.toNat - node.flowOutputCount) := by
    rw [Node.virtualInput?, Word.lower?, Node.flowOutputCount_withoutLeadingFlow lead, if_pos (Nat.zero_le _),
      Option.map_some, Option.some.injEq, Node.flowInputCount_withoutLeadingFlow lead, Word.lower_zero,
      Link.lowerSlots, originShift_eq wired apart found]
    simp [Word.ofCount, Word.toNat_lower]
  rw [place, Node.virtualInput?, Word.lower?, if_pos above, Option.map_some, Option.map_some, Option.some.injEq,
    UInt64.toNat_add, Word.ofCount, UInt64.toNat_ofNat', Word.toNat_lower]
  simp only [UInt64.size] at size
  omega

include wired apart member data found in
theorem bypassInput?_dataPart (straight : node.StraightThrough link.originSlot) (type : String) :
    node.bypassInput? type link.originSlot =
      (node.withoutLeadingFlow.bypassInput? type (link.lowerSlots g.leadingShifts).originSlot).map
        (node.flowInputCount + ·) := by
  have inside := List.mem_of_find?_eq_some found
  have above := (apart.dataLinks link member data node inside (id_of_node? found)).1
  rw [Link.lowerSlots, originShift_eq wired apart found]
  exact (Node.bypassInput?_withoutLeadingFlow_iff (apart.lead node inside) above).2 straight type

include wired apart found in
-- From the same data input the walk goes on along the same link.
theorem onwards_dataPart {place input : Option Nat} (same : place = input.map (node.flowInputCount + ·)) :
    input.bind (g.dataPart.incoming? node.id) =
      (place.bind (g.incoming? node.id)).map (·.lowerSlots g.leadingShifts) ∧
    ∀ next, place.bind (g.incoming? node.id) = some next → next ∈ g.links ∧ next.isFlow = false := by
  have own : g.node? node.id = some node := by rw [id_of_node? found, found]
  subst same
  cases input with
  | none => exact ⟨rfl, fun next none => by cases none⟩
  | some i => exact incoming?_dataPart wired apart own i

end Step

include wired apart in
theorem follow_dataPart (straight : g.BypassesStraight r) (type : String) (unvisited : List NodeId) (link : Link)
    (member : link ∈ g.links) (data : link.isFlow = false) :
    (g.follow r type unvisited link).map g.dataOutput =
      g.dataPart.follow r type unvisited (link.lowerSlots g.leadingShifts) := by
  have origin : ∀ link : Link, (link.lowerSlots g.leadingShifts).origin = link.origin := fun _ => rfl
  have id : ∀ node : Node, node.withoutLeadingFlow.id = node.id := fun _ => rfl
  have same : ∀ node : Node, r.participation node.withoutLeadingFlow = r.participation node := fun _ => rfl
  -- The cases are what the node at hand does with the link.
  fun_induction follow g r type unvisited link with
  | case1 unvisited link unknown =>
    rw [follow.eq_def g.dataPart, origin, node?_dataPart, unknown]
    rfl
  | case2 unvisited link node found unseen normal =>
    rw [follow.eq_def g.dataPart, origin, node?_dataPart, found]
    simp only [Option.map_some, id, same, normal, dataOutput, id_of_node? found]
    rw [if_pos (id_of_node? found ▸ unseen)]
    rfl
  | case3 unvisited link node found unseen muted =>
    rw [follow.eq_def g.dataPart, origin, node?_dataPart, found]
    simp only [Option.map_some, id, same, unseen, muted, if_true]
    rfl
  | case4 unvisited link node found unseen virtual next fed ih =>
    obtain ⟨onwards, kept⟩ := onwards_dataPart wired apart found (virtualInput?_dataPart wired apart member data found)
    rw [follow.eq_def g.dataPart, origin, node?_dataPart, found]
    simp only [Option.map_some, id, same, unseen, virtual, if_true, onwards, fed]
    exact ih (kept next fed).1 (kept next fed).2
  | case5 unvisited link node found unseen virtual unfed =>
    obtain ⟨onwards, _⟩ := onwards_dataPart wired apart found (virtualInput?_dataPart wired apart member data found)
    rw [follow.eq_def g.dataPart, origin, node?_dataPart, found]
    simp only [Option.map_some, id, same, unseen, virtual, if_true, onwards, unfed]
    rfl
  | case6 unvisited link node found unseen bypassed next fed ih =>
    have direct := straight link member data node (List.mem_of_find?_eq_some found) (id_of_node? found) bypassed
    obtain ⟨onwards, kept⟩ :=
      onwards_dataPart wired apart found (bypassInput?_dataPart wired apart member data found direct type)
    rw [follow.eq_def g.dataPart, origin, node?_dataPart, found]
    simp only [Option.map_some, id, same, unseen, bypassed, if_true, onwards, fed]
    exact ih (kept next fed).1 (kept next fed).2
  | case7 unvisited link node found unseen bypassed unfed =>
    have direct := straight link member data node (List.mem_of_find?_eq_some found) (id_of_node? found) bypassed
    obtain ⟨onwards, _⟩ :=
      onwards_dataPart wired apart found (bypassInput?_dataPart wired apart member data found direct type)
    rw [follow.eq_def g.dataPart, origin, node?_dataPart, found]
    simp only [Option.map_some, id, same, unseen, bypassed, if_true, onwards, unfed]
    rfl
  | case8 unvisited link node found seen =>
    rw [follow.eq_def g.dataPart, origin, node?_dataPart, found]
    simp only [Option.map_some, id, seen, if_false]
    rfl

include wired apart in
/-- The producers of all data inputs, found with sequencing in the graph, are those found without it. -/
theorem resolveInput_dataPart (straight : g.BypassesStraight r) {node : Node} (member : node ∈ g.nodes) (i : Nat) :
    (g.resolveInput r node.id (node.flowInputCount + i)).map g.dataOutput = g.dataPart.resolveInput r node.id i := by
  have found := (node?_eq_some_iff wired.nodeIds node.id node).2 ⟨member, rfl⟩
  have lead := apart.lead node member
  obtain ⟨onwards, kept⟩ := incoming?_dataPart wired apart found i
  simp only [resolveInput, node?_dataPart, found, Option.map_some, Option.bind_eq_bind, Option.bind_some,
    Node.input_withoutLeadingFlow lead, onwards, nodeIds_dataPart]
  cases node.inputs[node.flowInputCount + i]? with
  | none => rfl
  | some input =>
    cases fed : g.incoming? node.id (node.flowInputCount + i) with
    | none => rfl
    | some link => exact follow_dataPart wired apart straight input.type g.nodeIds link (kept link fed).1 (kept link fed).2

end DataPart

/-! ### A bypassed node that branches -/

-- One sequencing input, two sequencing outputs; the value behind the image output comes in at the second data input.
def branch (first : String) : Node :=
  { Node.plain (.number 3) "Choose" with
    mode := .bypassed
    inputs := [.plain "FROM" flowType, { InputSlot.plain "a" first with link := some 1 },
      { InputSlot.plain "b" "IMAGE" with link := some 2 }]
    outputs := [.plain "TRUE" flowType, .plain "FALSE" flowType,
      { OutputSlot.plain "chosen" "IMAGE" with links := some [3] }] }

def branching (first : String) : Graph where
  nodes := [
    { Node.plain (.number 1) "Load" with outputs := [{ OutputSlot.plain "value" first with links := some [1] }] },
    { Node.plain (.number 2) "Load" with outputs := [{ OutputSlot.plain "value" "IMAGE" with links := some [2] }] },
    branch first,
    { Node.plain (.number 4) "Save" with inputs := [{ InputSlot.plain "image" "IMAGE" with link := some 3 }] }]
  links := [⟨1, .number 1, 0, .number 3, 1, first⟩, ⟨2, .number 2, 0, .number 3, 2, "IMAGE"⟩,
    ⟨3, .number 3, 2, .number 4, 0, "IMAGE"⟩]
  nextLinkId := 4

theorem resolveInput_dataPart_branching :
    (branching "MASK").Wired ∧ (branching "MASK").SlotsApart ∧ (branching "MASK").BypassesStraight .standard ∧
      ((branching "MASK").resolveInput .standard (.number 4) 0).map (branching "MASK").dataOutput =
        (branching "MASK").dataPart.resolveInput .standard (.number 4) 0 := by
  have wired : (branching "MASK").Wired := by decide +kernel
  have apart : (branching "MASK").SlotsApart := by decide +kernel
  have straight : (branching "MASK").BypassesStraight .standard := by decide +kernel
  have member : (branching "MASK").nodes[3] ∈ (branching "MASK").nodes := List.getElem_mem _
  exact ⟨wired, apart, straight, resolveInput_dataPart wired apart straight member 0⟩

/-- With two images to choose from, the sequencing slots decide which one is passed on. -/
theorem resolveInput_branching_astray :
    (branching "IMAGE").Wired ∧ (branching "IMAGE").SlotsApart ∧
      (branching "IMAGE").resolveInput .standard (.number 4) 0 = some ⟨.number 2, 0⟩ ∧
      (branching "IMAGE").dataPart.resolveInput .standard (.number 4) 0 = some ⟨.number 1, 0⟩ := by
  decide +kernel

end Graph
end Patchbay
