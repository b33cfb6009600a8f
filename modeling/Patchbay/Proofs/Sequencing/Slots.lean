import Patchbay.Proofs.Sequencing.LinkIds

/-!
What the two passes do to the slots of one node. Taking the sequencing slots out and putting them back
resets a node: its sequencing slots are unlinked and numbered anew, and nothing else changes.
-/
set_option autoImplicit false

namespace Patchbay

section Lists

variable {α β : Type}

theorem take_length_takeWhile (p : α → Bool) (xs : List α) :
    xs.take (xs.takeWhile p).length = xs.takeWhile p := by
  induction xs with
  | nil => rfl
  | cons x xs ih => by_cases hit : p x <;> simp [hit, ih]

theorem drop_length_takeWhile (p : α → Bool) (xs : List α) :
    xs.drop (xs.takeWhile p).length = xs.dropWhile p := by
  induction xs with
  | nil => rfl
  | cons x xs ih => by_cases hit : p x <;> simp [hit, ih]

theorem takeWhile_dropWhile (p : α → Bool) (xs : List α) : (xs.dropWhile p).takeWhile p = [] := by
  induction xs with
  | nil => rfl
  | cons x xs ih => by_cases hit : p x <;> simp [hit, ih]

theorem takeWhile_modify (p : α → Bool) (f : α → α) (kept : ∀ x, p (f x) = p x) (xs : List α) (i : Nat) :
    (xs.modify i f).takeWhile p = (xs.takeWhile p).modify i f := by
  induction xs generalizing i with
  | nil => simp
  | cons x xs ih =>
    cases i with
    | zero => by_cases hit : p x <;> simp [List.modify_zero_cons, kept, hit]
    | succ i => by_cases hit : p x <;> simp [List.modify_succ_cons, hit, ih]

theorem dropWhile_modify (p : α → Bool) (f : α → α) (kept : ∀ x, p (f x) = p x) (xs : List α) (i : Nat)
    (inside : i < (xs.takeWhile p).length) : (xs.modify i f).dropWhile p = xs.dropWhile p := by
  induction xs generalizing i with
  | nil => simp
  | cons x xs ih =>
    by_cases hit : p x
    · cases i with
      | zero => simp [List.modify_zero_cons, kept, hit]
      | succ i =>
        have inside : i < (xs.takeWhile p).length := by simpa [hit] using inside
        simp [List.modify_succ_cons, hit, ih i inside]
    · simp [hit] at inside

theorem map_modify_same (f : α → α) (g : α → β) (kept : ∀ x, g (f x) = g x) (xs : List α) (i : Nat) :
    (xs.modify i f).map g = xs.map g := by
  apply List.ext_getElem?
  intro j
  rw [List.getElem?_map, List.getElem?_map, List.getElem?_modify]
  by_cases here : i = j <;> cases xs[j]? <;> simp [here, kept]

theorem mapIdx_modify_same (f : α → α) (g : Nat → α → β) (kept : ∀ j x, g j (f x) = g j x) (xs : List α)
    (i : Nat) : (xs.modify i f).mapIdx g = xs.mapIdx g := by
  apply List.ext_getElem?
  intro j
  rw [List.getElem?_mapIdx, List.getElem?_mapIdx, List.getElem?_modify]
  by_cases here : i = j <;> cases xs[j]? <;> simp [here, kept]

theorem takeWhile_eq_nil (p : α → Bool) (xs : List α) (none : ∀ x ∈ xs, p x = false) : xs.takeWhile p = [] := by
  cases xs with
  | nil => rfl
  | cons x xs => simp [none x List.mem_cons_self]

theorem dropWhile_eq_self (p : α → Bool) (xs : List α) (none : ∀ x ∈ xs, p x = false) :
    xs.dropWhile p = xs := by
  cases xs with
  | nil => rfl
  | cons x xs => simp [none x List.mem_cons_self]

theorem countP_takeWhile (p : α → Bool) (xs : List α) : (xs.takeWhile p).countP p = (xs.takeWhile p).length := by
  induction xs with
  | nil => rfl
  | cons x xs ih => by_cases hit : p x <;> simp [hit, ih]

theorem dropWhile_none_of_count (p : α → Bool) (xs : List α) (count : (xs.takeWhile p).length = xs.countP p) :
    ∀ x ∈ xs.dropWhile p, p x = false := by
  have split : xs.countP p = (xs.takeWhile p).countP p + (xs.dropWhile p).countP p := by
    rw [← List.countP_append, List.takeWhile_append_dropWhile]
  rw [countP_takeWhile] at split
  have zero : (xs.dropWhile p).countP p = 0 := by omega
  intro x member
  simpa using List.countP_eq_zero.1 zero x member

end Lists

namespace Node

theorem take_leadingFlowInputs (node : Node) :
    node.inputs.take node.leadingFlowInputs = node.inputs.takeWhile (·.isFlow) :=
  take_length_takeWhile _ _

theorem drop_leadingFlowInputs (node : Node) :
    node.inputs.drop node.leadingFlowInputs = node.inputs.dropWhile (·.isFlow) :=
  drop_length_takeWhile _ _

theorem take_leadingFlowOutputs (node : Node) :
    node.outputs.take node.leadingFlowOutputs = node.outputs.takeWhile (·.isFlow) :=
  take_length_takeWhile _ _

theorem drop_leadingFlowOutputs (node : Node) :
    node.outputs.drop node.leadingFlowOutputs = node.outputs.dropWhile (·.isFlow) :=
  drop_length_takeWhile _ _

-- Out of the slot lists and back: what a document keeps of a node that went through its compact form.
def reset (node : Node) : Node := node.stripSlots.materializeSlots

theorem reset_id (node : Node) : node.reset.id = node.id := rfl

theorem compactCounts_stripSlots (node : Node) : node.stripSlots.compactCounts = node.leadingCounts := by
  have inputs : (node.inputs.take node.leadingFlowInputs).length = node.leadingFlowInputs := by
    rw [take_leadingFlowInputs, leadingFlowInputs]
  have outputs : (node.outputs.take node.leadingFlowOutputs).length = node.leadingFlowOutputs := by
    rw [take_leadingFlowOutputs, leadingFlowOutputs]
  simp only [compactCounts, compactInputs, compactOutputs, stripSlots, Option.getD_some, List.length_map,
    inputs, outputs, leadingCounts]

theorem reset_inputs (node : Node) :
    node.reset.inputs =
      (node.inputs.takeWhile (·.isFlow)).map (fun slot => slot.toFlowInput.toSlot) ++
        node.inputs.dropWhile (·.isFlow) := by
  simp only [reset, materializeSlots, compactInputs, stripSlots, Option.getD_some, take_leadingFlowInputs,
    drop_leadingFlowInputs, List.map_map]
  rfl

theorem reset_outputs (node : Node) :
    node.reset.outputs =
      (node.outputs.takeWhile (·.isFlow)).mapIdx (fun index slot => slot.toFlowOutput.toSlot index) ++
        (node.outputs.dropWhile (·.isFlow)).map fun slot =>
          (slot.lowerIndex node.leadingFlowOutputs).raiseIndex node.leadingFlowOutputs := by
  have length : ((node.outputs.takeWhile (·.isFlow)).map (·.toFlowOutput)).length = node.leadingFlowOutputs := by
    rw [List.length_map, leadingFlowOutputs]
  simp only [reset, materializeSlots, compactOutputs, stripSlots, Option.getD_some, take_leadingFlowOutputs,
    drop_leadingFlowOutputs, length, List.map_map]
  congr 1
  apply List.ext_getElem?
  intro i
  simp only [List.getElem?_mapIdx, List.getElem?_map, Option.map_map]
  rfl

/-! ### What a reset keeps -/

theorem toSlot_isFlow (slot : FlowInput) : slot.toSlot.isFlow = true := by
  simp [FlowInput.toSlot, InputSlot.isFlow, InputSlot.plain]

theorem toSlot_output_isFlow (slot : FlowOutput) (index : Nat) : (slot.toSlot index).isFlow = true := by
  simp [FlowOutput.toSlot, OutputSlot.isFlow, OutputSlot.plain]

theorem reset_inputs_flags (node : Node) :
    node.reset.inputs.map (·.isFlow) = node.inputs.map (·.isFlow) := by
  have split : node.inputs.map (·.isFlow) =
      (node.inputs.takeWhile (·.isFlow)).map (·.isFlow) ++
        (node.inputs.dropWhile (·.isFlow)).map (·.isFlow) := by
    rw [← List.map_append, List.takeWhile_append_dropWhile]
  rw [split, reset_inputs, List.map_append, List.map_map]
  congr 1
  apply List.map_congr_left
  intro slot member
  have flow : slot.isFlow = true := List.all_eq_true.1 List.all_takeWhile slot member
  rw [Function.comp, toSlot_isFlow, flow]

theorem reset_outputs_flags (node : Node) :
    node.reset.outputs.map (·.isFlow) = node.outputs.map (·.isFlow) := by
  have split : node.outputs.map (·.isFlow) =
      (node.outputs.takeWhile (·.isFlow)).map (·.isFlow) ++
        (node.outputs.dropWhile (·.isFlow)).map (·.isFlow) := by
    rw [← List.map_append, List.takeWhile_append_dropWhile]
  rw [split, reset_outputs, List.map_append, List.map_map]
  congr 1
  apply List.ext_getElem?
  intro i
  rw [List.getElem?_map, List.getElem?_mapIdx, List.getElem?_map, Option.map_map]
  cases found : (node.outputs.takeWhile (·.isFlow))[i]? with
  | none => rfl
  | some slot =>
    have flow : slot.isFlow = true :=
      List.all_eq_true.1 List.all_takeWhile slot (List.mem_of_getElem? found)
    rw [Option.map_some, Option.map_some, Function.comp, toSlot_output_isFlow, flow]

section Flags

-- The counters of a node look at nothing but which slots are sequencing slots.
variable {a b : Node} (inputs : a.inputs.map (·.isFlow) = b.inputs.map (·.isFlow))
  (outputs : a.outputs.map (·.isFlow) = b.outputs.map (·.isFlow))

include inputs in
theorem leadingFlowInputs_congr : a.leadingFlowInputs = b.leadingFlowInputs := by
  have view : ∀ node : Node,
      node.leadingFlowInputs = ((node.inputs.map (·.isFlow)).takeWhile fun flag => flag).length := by
    intro node
    rw [List.takeWhile_map, List.length_map]
    rfl
  rw [view a, view b, inputs]

include outputs in
theorem leadingFlowOutputs_congr : a.leadingFlowOutputs = b.leadingFlowOutputs := by
  have view : ∀ node : Node,
      node.leadingFlowOutputs = ((node.outputs.map (·.isFlow)).takeWhile fun flag => flag).length := by
    intro node
    rw [List.takeWhile_map, List.length_map]
    rfl
  rw [view a, view b, outputs]

include inputs in
theorem flowInputCount_congr : a.flowInputCount = b.flowInputCount := by
  have view : ∀ node : Node, node.flowInputCount = (node.inputs.map (·.isFlow)).countP fun flag => flag := by
    intro node
    rw [List.countP_map]
    rfl
  rw [view a, view b, inputs]

include outputs in
theorem flowOutputCount_congr : a.flowOutputCount = b.flowOutputCount := by
  have view : ∀ node : Node, node.flowOutputCount = (node.outputs.map (·.isFlow)).countP fun flag => flag := by
    intro node
    rw [List.countP_map]
    rfl
  rw [view a, view b, outputs]

include inputs outputs in
theorem leadingCounts_congr : a.leadingCounts = b.leadingCounts := by
  rw [leadingCounts, leadingCounts, leadingFlowInputs_congr inputs, leadingFlowOutputs_congr outputs]

include inputs outputs in
theorem flowSlotsLead_congr : a.flowSlotsLead = b.flowSlotsLead := by
  rw [flowSlotsLead, flowSlotsLead, leadingFlowInputs_congr inputs, leadingFlowOutputs_congr outputs,
    flowInputCount_congr inputs, flowOutputCount_congr outputs]

end Flags

theorem reset_leadingCounts (node : Node) : node.reset.leadingCounts = node.leadingCounts :=
  leadingCounts_congr node.reset_inputs_flags node.reset_outputs_flags

theorem reset_flowSlotsLead (node : Node) : node.reset.flowSlotsLead = node.flowSlotsLead :=
  flowSlotsLead_congr node.reset_inputs_flags node.reset_outputs_flags

/-! ### Linking sequencing slots -/

def hangOrigin (link : Link) (node : Node) : Node :=
  { node with outputs := node.outputs.modify link.originSlot.toNat (·.attach link.id) }

def hangTarget (link : Link) (node : Node) : Node :=
  { node with inputs := node.inputs.modify link.targetSlot.toNat ({ · with link := some link.id }) }

theorem reset_hangOrigin (link : Link) (node : Node) (inside : link.originSlot.toNat < node.leadingFlowOutputs) :
    (node.hangOrigin link).reset = node.reset := by
  have kept : ∀ slot : OutputSlot, (slot.attach link.id).isFlow = slot.isFlow := fun _ => rfl
  have flags : (node.hangOrigin link).outputs.map (·.isFlow) = node.outputs.map (·.isFlow) :=
    map_modify_same _ _ kept _ _
  have outputs : (node.hangOrigin link).reset.outputs = node.reset.outputs := by
    rw [reset_outputs, reset_outputs, leadingFlowOutputs_congr flags]
    simp only [hangOrigin]
    rw [takeWhile_modify _ _ kept, dropWhile_modify _ _ kept _ _ inside, mapIdx_modify_same]
    intro index slot
    rfl
  calc (node.hangOrigin link).reset
      = { node.reset with outputs := (node.hangOrigin link).reset.outputs } := rfl
    _ = node.reset := by rw [outputs]

theorem reset_hangTarget (link : Link) (node : Node) (inside : link.targetSlot.toNat < node.leadingFlowInputs) :
    (node.hangTarget link).reset = node.reset := by
  have kept : ∀ slot : InputSlot, ({ slot with link := some link.id } : InputSlot).isFlow = slot.isFlow :=
    fun _ => rfl
  have inputs : (node.hangTarget link).reset.inputs = node.reset.inputs := by
    rw [reset_inputs, reset_inputs]
    simp only [hangTarget]
    rw [takeWhile_modify _ _ kept, dropWhile_modify _ _ kept _ _ inside, map_modify_same]
    intro slot
    rfl
  calc (node.hangTarget link).reset
      = { node.reset with inputs := (node.hangTarget link).reset.inputs } := rfl
    _ = node.reset := by rw [inputs]

/-! ### Nodes without sequencing slots among their data slots -/

theorem hasFlowSlot_eq_false_iff (node : Node) :
    node.hasFlowSlot = false ↔
      (∀ slot ∈ node.inputs, slot.isFlow = false) ∧ ∀ slot ∈ node.outputs, slot.isFlow = false := by
  unfold hasFlowSlot flowInputCount flowOutputCount
  rw [Bool.or_eq_false_iff]
  simp

theorem leading_eq_zero {node : Node} (dataOnly : node.hasFlowSlot = false) :
    node.leadingFlowInputs = 0 ∧ node.leadingFlowOutputs = 0 := by
  obtain ⟨inputs, outputs⟩ := (hasFlowSlot_eq_false_iff node).1 dataOnly
  rw [leadingFlowInputs, leadingFlowOutputs, takeWhile_eq_nil _ _ inputs, takeWhile_eq_nil _ _ outputs]
  exact ⟨rfl, rfl⟩

theorem hasFlowSlot_stripSlots (node : Node) (lead : node.flowSlotsLead) :
    node.stripSlots.hasFlowSlot = false := by
  simp only [flowSlotsLead, Bool.and_eq_true, beq_iff_eq] at lead
  rw [hasFlowSlot_eq_false_iff]
  constructor
  · simp only [stripSlots, drop_leadingFlowInputs]
    exact dropWhile_none_of_count _ _ lead.1
  · intro slot member
    simp only [stripSlots, drop_leadingFlowOutputs, List.mem_map] at member
    obtain ⟨old, member, rfl⟩ := member
    exact dropWhile_none_of_count _ _ lead.2 old member

section DataOnly

variable {node : Node} (dataOnly : node.hasFlowSlot = false)

theorem isFlow_of_mem_stored_inputs {slot : InputSlot} (member : slot ∈ node.compactInputs.map (·.toSlot)) :
    slot.isFlow = true := by
  obtain ⟨stored, _, rfl⟩ := List.mem_map.1 member
  exact toSlot_isFlow stored

theorem isFlow_of_mem_stored_outputs {slot : OutputSlot}
    (member : slot ∈ node.compactOutputs.mapIdx fun index stored => stored.toSlot index) :
    slot.isFlow = true := by
  obtain ⟨index, inside, rfl⟩ := List.mem_mapIdx.1 member
  exact toSlot_output_isFlow _ index

include dataOnly in
theorem takeWhile_materialized_inputs :
    node.materializeSlots.inputs.takeWhile (·.isFlow) = node.compactInputs.map (·.toSlot) := by
  have rest := takeWhile_eq_nil _ _ ((hasFlowSlot_eq_false_iff node).1 dataOnly).1
  rw [materializeSlots, List.takeWhile_append_of_pos fun _ => isFlow_of_mem_stored_inputs, rest,
    List.append_nil]

include dataOnly in
theorem dropWhile_materialized_inputs :
    node.materializeSlots.inputs.dropWhile (·.isFlow) = node.inputs := by
  rw [materializeSlots, List.dropWhile_append_of_pos fun _ => isFlow_of_mem_stored_inputs]
  exact dropWhile_eq_self _ _ ((hasFlowSlot_eq_false_iff node).1 dataOnly).1

include dataOnly in
theorem raised_outputs_noFlow (n : Nat) : ∀ slot ∈ node.outputs.map (·.raiseIndex n), slot.isFlow = false := by
  intro slot member
  obtain ⟨stored, inside, rfl⟩ := List.mem_map.1 member
  exact ((hasFlowSlot_eq_false_iff node).1 dataOnly).2 stored inside

include dataOnly in
theorem takeWhile_materialized_outputs :
    node.materializeSlots.outputs.takeWhile (·.isFlow) =
      node.compactOutputs.mapIdx fun index slot => slot.toSlot index := by
  rw [materializeSlots, List.takeWhile_append_of_pos fun _ => isFlow_of_mem_stored_outputs,
    takeWhile_eq_nil _ _ (raised_outputs_noFlow dataOnly _), List.append_nil]

include dataOnly in
theorem dropWhile_materialized_outputs :
    node.materializeSlots.outputs.dropWhile (·.isFlow) =
      node.outputs.map (·.raiseIndex node.compactOutputs.length) := by
  rw [materializeSlots, List.dropWhile_append_of_pos fun _ => isFlow_of_mem_stored_outputs]
  exact dropWhile_eq_self _ _ (raised_outputs_noFlow dataOnly _)

include dataOnly in
theorem leadingFlowOutputs_materializeSlots :
    node.materializeSlots.leadingFlowOutputs = node.compactOutputs.length := by
  rw [leadingFlowOutputs, takeWhile_materialized_outputs dataOnly, List.length_mapIdx]

include dataOnly in
theorem leadingCounts_materializeSlots : node.materializeSlots.leadingCounts = node.compactCounts := by
  rw [leadingCounts, leadingFlowOutputs_materializeSlots dataOnly, leadingFlowInputs,
    takeWhile_materialized_inputs dataOnly, List.length_map]
  rfl

include dataOnly in
theorem flowSlotsLead_materializeSlots : node.materializeSlots.flowSlotsLead = true := by
  have inputs : node.materializeSlots.flowInputCount = node.compactInputs.length := by
    rw [flowInputCount, ← List.takeWhile_append_dropWhile (p := fun slot : InputSlot => slot.isFlow)
      (l := node.materializeSlots.inputs), List.countP_append, countP_takeWhile,
      takeWhile_materialized_inputs dataOnly, dropWhile_materialized_inputs dataOnly, List.length_map]
    have none : node.inputs.countP (·.isFlow) = 0 :=
      List.countP_eq_zero.2 (by simpa using ((hasFlowSlot_eq_false_iff node).1 dataOnly).1)
    omega
  have outputs : node.materializeSlots.flowOutputCount = node.compactOutputs.length := by
    rw [flowOutputCount, ← List.takeWhile_append_dropWhile (p := fun slot : OutputSlot => slot.isFlow)
      (l := node.materializeSlots.outputs), List.countP_append, countP_takeWhile,
      takeWhile_materialized_outputs dataOnly, dropWhile_materialized_outputs dataOnly, List.length_mapIdx]
    have none : (node.outputs.map (·.raiseIndex node.compactOutputs.length)).countP (·.isFlow) = 0 :=
      List.countP_eq_zero.2 (by simpa using raised_outputs_noFlow dataOnly _)
    omega
  have counts := leadingCounts_materializeSlots dataOnly
  simp only [leadingCounts, compactCounts, Prod.mk.injEq] at counts
  simp only [flowSlotsLead, Bool.and_eq_true, beq_iff_eq]
  exact ⟨counts.1.trans inputs.symm, counts.2.trans outputs.symm⟩

include dataOnly in
theorem reset_materializeSlots : node.materializeSlots.reset = node.materializeSlots := by
  have inputs : node.materializeSlots.reset.inputs = node.materializeSlots.inputs := by
    rw [reset_inputs, takeWhile_materialized_inputs dataOnly, dropWhile_materialized_inputs dataOnly,
      List.map_map]
    rfl
  have outputs : node.materializeSlots.reset.outputs = node.materializeSlots.outputs := by
    rw [reset_outputs, takeWhile_materialized_outputs dataOnly, dropWhile_materialized_outputs dataOnly,
      leadingFlowOutputs_materializeSlots dataOnly, List.map_map, materializeSlots]
    congr 1
    · apply List.ext_getElem?
      intro i
      simp only [List.getElem?_mapIdx, Option.map_map]
      rfl
    · apply List.map_congr_left
      intro slot _
      simp only [Function.comp, OutputSlot.raiseIndex, OutputSlot.lowerIndex, Option.map_map,
        OutputSlot.mk.injEq, true_and, and_true]
      cases slot.index with
      | none => rfl
      | some index => rw [Option.map_some, Option.map_some, Function.comp, Function.comp, Word.raise_lower_raise]
  calc node.materializeSlots.reset
      = { node.materializeSlots with
          inputs := node.materializeSlots.reset.inputs
          outputs := node.materializeSlots.reset.outputs } := rfl
    _ = node.materializeSlots := by rw [inputs, outputs]

end DataOnly

end Node
end Patchbay
