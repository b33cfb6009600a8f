import Patchbay.Proofs.Sequencing.Slots

/-!
A whole list of sequencing links, hung into the slots of one node. What a slot holds in the end is
decided by the links that name it, and the compact form of the node shows it slot by slot.
-/
set_option autoImplicit false

namespace Patchbay

section Lists

variable {α β : Type}

theorem foldl_modify_getElem? (here : β → Bool) (place : β → Nat) (change : β → α → α) (changes : List β)
    (xs : List α) (i : Nat) :
    (changes.foldl (fun xs c => if here c then xs.modify (place c) (change c) else xs) xs)[i]? =
      xs[i]?.map fun x => (changes.filter fun c => here c && place c == i).foldl (fun x c => change c x) x := by
  induction changes generalizing xs with
  | nil => simp
  | cons c rest ih =>
    rw [List.foldl_cons, ih, List.filter_cons]
    by_cases hit : here c
    · rw [if_pos hit, List.getElem?_modify]
      by_cases same : place c = i <;> cases xs[i]? <;> simp [hit, same]
    · simp [hit]

/-- Where no two members share a key, a test that fixes the key is met by one member at most. -/
theorem filter_eq_find? (p : α → Bool) (key : α → β) (xs : List α) (distinct : (xs.map key).Nodup)
    (fixed : ∀ x ∈ xs, ∀ y ∈ xs, p x = true → p y = true → key x = key y) :
    xs.filter p = (xs.find? p).toList := by
  induction xs with
  | nil => rfl
  | cons x rest ih =>
    rw [List.map_cons, List.nodup_cons] at distinct
    by_cases hit : p x = true
    · have none : rest.filter p = [] := by
        rw [List.filter_eq_nil_iff]
        intro y member other
        apply distinct.1
        rw [fixed x List.mem_cons_self y (List.mem_cons_of_mem x member) hit other]
        exact List.mem_map_of_mem member
      rw [List.filter_cons_of_pos hit, List.find?_cons_of_pos hit, none]
      rfl
    · have later : ∀ y ∈ rest, ∀ z ∈ rest, p y = true → p z = true → key y = key z := fun y memberY z memberZ =>
        fixed y (List.mem_cons_of_mem x memberY) z (List.mem_cons_of_mem x memberZ)
      rw [List.filter_cons_of_neg hit, List.find?_cons_of_neg hit, ih distinct.2 later]

end Lists

namespace FlowLink

def leaves (flow : FlowLink) (id : NodeId) (slot : Nat) : Bool :=
  flow.origin == id && flow.originSlot.toNat == slot

def enters (flow : FlowLink) (id : NodeId) (slot : Nat) : Bool :=
  flow.target == id && flow.targetSlot.toNat == slot

theorem leaves_iff (flow : FlowLink) (id : NodeId) (slot : Nat) :
    flow.leaves id slot = true ↔ flow.origin = id ∧ flow.originSlot.toNat = slot := by
  simp [leaves]

theorem enters_iff (flow : FlowLink) (id : NodeId) (slot : Nat) :
    flow.enters id slot = true ↔ flow.target = id ∧ flow.targetSlot.toNat = slot := by
  simp [enters]

end FlowLink

-- What the stored slots of a node say about its links, told by the stored links alone.
def linkLeaving (flows : List FlowLink) (id : NodeId) (slot : Nat) : Option LinkId :=
  (flows.find? (·.leaves id slot)).map (·.id)

def linkEntering (flows : List FlowLink) (id : NodeId) (slot : Nat) : Option LinkId :=
  (flows.find? (·.enters id slot)).map (·.id)

namespace Node

/-- The node with stored slots that name the stored links at them, in order, and nothing else. -/
def showing (flows : List FlowLink) (node : Node) : Node :=
  { node with
    flowInputs := some (node.compactInputs.mapIdx fun slot stored =>
      ⟨stored.name, flowType, some [linkEntering flows node.id slot], stored.extra⟩)
    flowOutputs := some (node.compactOutputs.mapIdx fun slot stored =>
      ⟨stored.name, flowType, linkLeaving flows node.id slot, some (.ofNat slot), stored.extra⟩) }

def hang (node : Node) (flow : FlowLink) : Node :=
  let origin := if node.id = flow.origin then node.hangOrigin flow.toLink else node
  if node.id = flow.target then origin.hangTarget flow.toLink else origin

def hangAll (node : Node) (flows : List FlowLink) : Node := flows.foldl hang node

theorem hang_eq (node : Node) (flow : FlowLink) :
    node.hang flow =
      { node with
        inputs := if flow.target == node.id then
            node.inputs.modify flow.targetSlot.toNat ({ · with link := some flow.id }) else node.inputs
        outputs := if flow.origin == node.id then
            node.outputs.modify flow.originSlot.toNat (·.attach flow.id) else node.outputs } := by
  unfold hang
  rw [BEq.comm (a := flow.target), BEq.comm (a := flow.origin)]
  simp only [beq_iff_eq]
  by_cases origin : node.id = flow.origin
  · by_cases target : node.id = flow.target
    · simp only [if_pos origin, if_pos target]
      rfl
    · simp only [if_pos origin, if_neg target]
      rfl
  · by_cases target : node.id = flow.target
    · simp only [if_neg origin, if_pos target]
      rfl
    · simp only [if_neg origin, if_neg target]

theorem hangAll_eq (flows : List FlowLink) (node : Node) :
    node.hangAll flows =
      { node with
        inputs := flows.foldl (fun slots flow => if flow.target == node.id then
            slots.modify flow.targetSlot.toNat ({ · with link := some flow.id }) else slots) node.inputs
        outputs := flows.foldl (fun slots flow => if flow.origin == node.id then
            slots.modify flow.originSlot.toNat (·.attach flow.id) else slots) node.outputs } := by
  induction flows generalizing node with
  | nil => rfl
  | cons flow rest ih =>
    rw [hangAll, List.foldl_cons]
    refine (ih (node.hang flow)).trans ?_
    rw [hang_eq]
    rfl

theorem hangAll_id (node : Node) (flows : List FlowLink) : (node.hangAll flows).id = node.id := by
  rw [hangAll_eq]

theorem hangAll_input (node : Node) (flows : List FlowLink) (i : Nat) :
    (node.hangAll flows).inputs[i]? = node.inputs[i]?.map fun slot =>
      (flows.filter (·.enters node.id i)).foldl (fun slot flow => { slot with link := some flow.id }) slot := by
  rw [hangAll_eq]
  exact foldl_modify_getElem? _ _ _ flows node.inputs i

theorem hangAll_output (node : Node) (flows : List FlowLink) (i : Nat) :
    (node.hangAll flows).outputs[i]? = node.outputs[i]?.map fun slot =>
      (flows.filter (·.leaves node.id i)).foldl (fun slot flow => slot.attach flow.id) slot := by
  rw [hangAll_eq]
  exact foldl_modify_getElem? _ _ _ flows node.outputs i

theorem linkIds_attachAll (flows : List FlowLink) (slot : OutputSlot) :
    (flows.foldl (fun slot flow => slot.attach flow.id) slot).linkIds = slot.linkIds ++ flows.map (·.id) := by
  induction flows generalizing slot with
  | nil => exact (List.append_nil _).symm
  | cons flow rest ih =>
    rw [List.foldl_cons, ih, OutputSlot.linkIds_attach, List.map_cons, List.append_assoc]
    rfl

theorem toFlowOutput_attachAll (flows : List FlowLink) (slot : OutputSlot) :
    (flows.foldl (fun slot flow => slot.attach flow.id) slot).toFlowOutput =
      { slot.toFlowOutput with link := (slot.linkIds ++ flows.map (·.id)).head? } := by
  induction flows generalizing slot with
  | nil =>
    rw [List.map_nil, List.append_nil]
    rfl
  | cons flow rest ih =>
    rw [List.foldl_cons, ih, OutputSlot.linkIds_attach, List.map_cons, List.append_assoc]
    rfl

theorem isSome_linkAll (flows : List FlowLink) (slot : InputSlot) :
    (flows.foldl (fun slot flow => { slot with link := some flow.id }) slot).link.isSome =
      (slot.link.isSome || !flows.isEmpty) := by
  induction flows generalizing slot with
  | nil => simp
  | cons flow rest ih =>
    rw [List.foldl_cons, ih]
    simp

theorem hangAll_flags (flows : List FlowLink) (node : Node) :
    (node.hangAll flows).inputs.map (·.isFlow) = node.inputs.map (·.isFlow) ∧
      (node.hangAll flows).outputs.map (·.isFlow) = node.outputs.map (·.isFlow) := by
  induction flows generalizing node with
  | nil => exact ⟨rfl, rfl⟩
  | cons flow rest ih =>
    rw [hangAll, List.foldl_cons]
    obtain ⟨inputs, outputs⟩ := ih (node.hang flow)
    refine ⟨inputs.trans ?_, outputs.trans ?_⟩
    · rw [hang_eq]
      by_cases target : flow.target == node.id
      · simp only [target, if_true]
        rw [map_modify_same]
        exact fun _ => rfl
      · simp only [target]
        rfl
    · rw [hang_eq]
      by_cases origin : flow.origin == node.id
      · simp only [origin, if_true]
        rw [map_modify_same]
        exact fun _ => rfl
      · simp only [origin]
        rfl

/-! ### The compact form of a node with links -/

section Stored

variable {node : Node} {flows : List FlowLink} (dataOnly : node.hasFlowSlot = false)

theorem materialized_input_lt {i : Nat} (inside : i < node.compactInputs.length) :
    node.materializeSlots.inputs[i]? = node.compactInputs[i]?.map (·.toSlot) := by
  rw [materializeSlots, List.getElem?_append_left (by rwa [List.length_map]), List.getElem?_map]

theorem materialized_output_lt {i : Nat} (inside : i < node.compactOutputs.length) :
    node.materializeSlots.outputs[i]? = node.compactOutputs[i]?.map (·.toSlot i) := by
  rw [materializeSlots, List.getElem?_append_left (by rwa [List.length_mapIdx]), List.getElem?_mapIdx]

theorem materialized_input_add (i : Nat) :
    node.materializeSlots.inputs[node.compactInputs.length + i]? = node.inputs[i]? := by
  rw [materializeSlots, List.getElem?_append_right (by rw [List.length_map]; omega), List.length_map,
    Nat.add_sub_cancel_left]

theorem materialized_output_add (i : Nat) :
    node.materializeSlots.outputs[node.compactOutputs.length + i]? =
      node.outputs[i]?.map (·.raiseIndex node.compactOutputs.length) := by
  rw [materializeSlots, List.getElem?_append_right (by rw [List.length_mapIdx]; omega), List.length_mapIdx,
    Nat.add_sub_cancel_left, List.getElem?_map]

include dataOnly in
theorem leadingCounts_hangAll : (node.materializeSlots.hangAll flows).leadingCounts = node.compactCounts := by
  obtain ⟨inputs, outputs⟩ := hangAll_flags flows node.materializeSlots
  rw [leadingCounts_congr inputs outputs, leadingCounts_materializeSlots dataOnly]

-- Links to this node stay within its sequencing slots, one to a slot.
variable (targets : (flows.map fun flow => (flow.target, flow.targetSlot)).Nodup)
  (entering : ∀ flow ∈ flows, flow.target = node.id → flow.targetSlot.toNat < node.compactInputs.length)
  (leaving : ∀ flow ∈ flows, flow.origin = node.id → flow.originSlot.toNat < node.compactOutputs.length)
  (indexes : ∀ slot ∈ node.outputs,
    (slot.raiseIndex node.compactOutputs.length).lowerIndex node.compactOutputs.length = slot)

include entering in
theorem drop_hangAll_inputs :
    (node.materializeSlots.hangAll flows).inputs.drop node.compactInputs.length = node.inputs := by
  apply List.ext_getElem?
  intro i
  have none : flows.filter (·.enters node.id (node.compactInputs.length + i)) = [] := by
    rw [List.filter_eq_nil_iff]
    intro flow member hit
    obtain ⟨target, slot⟩ := (flow.enters_iff _ _).1 hit
    have inside := entering flow member target
    omega
  rw [List.getElem?_drop, hangAll_input, materialized_input_add]
  simp only [materializeSlots, none, List.foldl_nil]
  cases node.inputs[i]? <;> rfl

include leaving indexes in
theorem drop_hangAll_outputs :
    ((node.materializeSlots.hangAll flows).outputs.drop node.compactOutputs.length).map
      (·.lowerIndex node.compactOutputs.length) = node.outputs := by
  apply List.ext_getElem?
  intro i
  have none : flows.filter (·.leaves node.id (node.compactOutputs.length + i)) = [] := by
    rw [List.filter_eq_nil_iff]
    intro flow member hit
    obtain ⟨origin, slot⟩ := (flow.leaves_iff _ _).1 hit
    have inside := leaving flow member origin
    omega
  rw [List.getElem?_map, List.getElem?_drop, hangAll_output, materialized_output_add]
  simp only [materializeSlots, none, List.foldl_nil, Option.map_map]
  cases found : node.outputs[i]? with
  | none => rfl
  | some slot =>
    rw [Option.map_some, Function.comp, Function.comp, indexes slot (List.mem_of_getElem? found)]

include targets in
theorem take_hangAll_inputs :
    ((node.materializeSlots.hangAll flows).inputs.take node.compactInputs.length).map (·.toFlowInput) =
      node.compactInputs.mapIdx fun slot stored =>
        ⟨stored.name, flowType, some [linkEntering flows node.id slot], stored.extra⟩ := by
  apply List.ext_getElem?
  intro i
  rw [List.getElem?_map, List.getElem?_take, List.getElem?_mapIdx]
  by_cases inside : i < node.compactInputs.length
  · have single : flows.filter (·.enters node.id i) = (flows.find? (·.enters node.id i)).toList := by
      apply filter_eq_find? _ _ flows targets
      intro a _ b _ hitA hitB
      obtain ⟨targetA, slotA⟩ := (a.enters_iff _ _).1 hitA
      obtain ⟨targetB, slotB⟩ := (b.enters_iff _ _).1 hitB
      rw [targetA, targetB, UInt64.toNat_inj.1 (slotA.trans slotB.symm)]
    rw [if_pos inside, hangAll_input, materialized_input_lt inside, Option.map_map, Option.map_map]
    congr 1
    funext stored
    simp only [Function.comp, materializeSlots, single, linkEntering]
    cases flows.find? (·.enters node.id i) <;> rfl
  · rw [if_neg inside, List.getElem?_eq_none (Nat.le_of_not_lt inside)]
    rfl

theorem take_hangAll_outputs :
    ((node.materializeSlots.hangAll flows).outputs.take node.compactOutputs.length).map (·.toFlowOutput) =
      node.compactOutputs.mapIdx fun slot stored =>
        ⟨stored.name, flowType, linkLeaving flows node.id slot, some (.ofNat slot), stored.extra⟩ := by
  apply List.ext_getElem?
  intro i
  rw [List.getElem?_map, List.getElem?_take, List.getElem?_mapIdx]
  by_cases inside : i < node.compactOutputs.length
  · rw [if_pos inside, hangAll_output, materialized_output_lt inside, Option.map_map, Option.map_map]
    congr 1
    funext stored
    simp only [Function.comp, toFlowOutput_attachAll, linkLeaving]
    have head : ((stored.toSlot i).linkIds ++ (flows.filter (·.leaves node.id i)).map (·.id)).head? =
        (flows.find? (·.leaves node.id i)).map (·.id) := by
      have unlinked : (stored.toSlot i).linkIds = [] := rfl
      rw [unlinked, List.nil_append, List.head?_map, List.head?_filter]
    rw [show node.materializeSlots.id = node.id from rfl, head]
    rfl
  · rw [if_neg inside, List.getElem?_eq_none (Nat.le_of_not_lt inside)]
    rfl

include dataOnly targets entering leaving indexes in
/-- The stored slots can be read off the stored links. -/
theorem stripSlots_hangAll : (node.materializeSlots.hangAll flows).stripSlots = node.showing flows := by
  have counts : (node.materializeSlots.hangAll flows).leadingCounts = node.compactCounts :=
    leadingCounts_hangAll dataOnly
  simp only [leadingCounts, compactCounts, Prod.mk.injEq] at counts
  rw [stripSlots, counts.1, counts.2, drop_hangAll_inputs entering, drop_hangAll_outputs leaving indexes,
    take_hangAll_inputs targets, take_hangAll_outputs, hangAll_eq]
  rfl

end Stored

end Node
end Patchbay
