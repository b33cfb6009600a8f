import Patchbay.Proofs.Graph.DataSlots
import Patchbay.Proofs.Reordering.Shuffles
import Patchbay.Proofs.Reordering.Writes

/-!
What the runtime form of a document keeps of its data: the slots of a node with sequencing slots ahead of them, and
the links to and from these slots. Where slots and links of the document agree, every input is fed once, and two
runtime forms with the same data differ in sequencing only.
-/
set_option autoImplicit false

namespace Patchbay

/-! ### Links that are hung into sequencing slots -/

section Lists

variable {α β : Type}

theorem map_modify_of_kept (f : α → α) (g : α → β) (xs : List α) (i : Nat)
    (kept : ∀ x, xs[i]? = some x → g (f x) = g x) : (xs.modify i f).map g = xs.map g := by
  apply List.ext_getElem?
  intro j
  rw [List.getElem?_map, List.getElem?_map, List.getElem?_modify]
  by_cases here : i = j
  · subst here
    cases found : xs[i]? with
    | none => rfl
    | some x => simp [kept x found]
  · cases xs[j]? <;> simp [here]

end Lists

namespace Node

theorem unsequenced_hangOrigin (link : Link) (node : Node) (inside : link.originSlot.toNat < node.leadingFlowOutputs) :
    (node.hangOrigin link).unsequenced = node.unsequenced := by
  obtain ⟨slot, found, flow⟩ := getElem?_of_lt_takeWhile inside
  have outputs : (node.hangOrigin link).outputs.map (·.unsequenced) = node.outputs.map (·.unsequenced) := by
    refine map_modify_of_kept _ _ _ _ fun other there => ?_
    rw [found] at there
    cases there
    have attached : (slot.attach link.id).isFlow = true := flow
    rw [OutputSlot.unsequenced, OutputSlot.unsequenced, if_pos attached, if_pos flow]
    rfl
  calc (node.hangOrigin link).unsequenced
      = { node.unsequenced with outputs := (node.hangOrigin link).outputs.map (·.unsequenced) } := rfl
    _ = node.unsequenced := by rw [outputs]; rfl

theorem unsequenced_hangTarget (link : Link) (node : Node) (inside : link.targetSlot.toNat < node.leadingFlowInputs) :
    (node.hangTarget link).unsequenced = node.unsequenced := by
  obtain ⟨slot, found, flow⟩ := getElem?_of_lt_takeWhile inside
  have inputs : (node.hangTarget link).inputs.map (·.unsequenced) = node.inputs.map (·.unsequenced) := by
    refine map_modify_of_kept _ _ _ _ fun other there => ?_
    rw [found] at there
    cases there
    have linked : ({ slot with link := some link.id } : InputSlot).isFlow = true := flow
    rw [InputSlot.unsequenced, InputSlot.unsequenced, if_pos linked, if_pos flow]
    rfl
  calc (node.hangTarget link).unsequenced
      = { node.unsequenced with inputs := (node.hangTarget link).inputs.map (·.unsequenced) } := rfl
    _ = node.unsequenced := by rw [inputs]; rfl

theorem leadingCounts_unsequenced (node : Node) : node.unsequenced.leadingCounts = node.leadingCounts :=
  leadingCounts_congr node.inputFlags_unsequenced node.outputFlags_unsequenced

end Node

namespace Weave

theorem shiftsOf_eq_of_unsequenced {a b : List Node} (same : a.map (·.unsequenced) = b.map (·.unsequenced)) :
    shiftsOf (·.leadingCounts) a = shiftsOf (·.leadingCounts) b := by
  funext id
  have alike := congrArg (Option.map (·.leadingCounts)) (findLast?_view (·.unsequenced) (·.id) (fun _ => rfl) same id)
  simp only [Option.map_map, Function.comp_def, Node.leadingCounts_unsequenced] at alike
  rw [shiftsOf, shiftsOf, alike]

theorem accept_unsequenced (w : Weave) (flow : FlowLink) (fits : w.Fits (shiftsOf (·.leadingCounts) w.nodes) flow) :
    (w.accept flow).nodes.map (·.unsequenced) = w.nodes.map (·.unsequenced) := by
  have origin : (updateLast flow.origin (·.hangOrigin (w.linkFor flow)) w.nodes).map (·.unsequenced) =
      w.nodes.map (·.unsequenced) := by
    apply updateLast_map_view
    intro node found
    have inside := fits.originSlot
    rw [shiftsOf_of_findLast? found] at inside
    exact node.unsequenced_hangOrigin _ inside
  rw [accept_nodes, ← origin]
  apply updateLast_map_view
  intro node found
  have inside := fits.targetSlot
  rw [← shiftsOf_eq_of_unsequenced origin, shiftsOf_of_findLast? found] at inside
  exact node.unsequenced_hangTarget _ inside

theorem unsequenced_run {counts : NodeId → Nat × Nat} {flows : List FlowLink} {w final : Weave}
    (fitting : counts = shiftsOf (·.leadingCounts) w.nodes) (run : flows.foldlM (Weave.add counts) w = .ok final) :
    final.nodes.map (·.unsequenced) = w.nodes.map (·.unsequenced) := by
  have kept := run_keeps (P := fun _ v => counts = shiftsOf (·.leadingCounts) v.nodes ∧
    v.nodes.map (·.unsequenced) = w.nodes.map (·.unsequenced)) ?_ ?_ ⟨fitting, rfl⟩ run
  · exact kept.2
  · exact fun _ _ _ _ _ both => both
  · rintro flow _ v fits _ ⟨fitting, same⟩
    have hung := v.accept_unsequenced flow (fitting ▸ fits)
    exact ⟨fitting.trans (shiftsOf_eq_of_unsequenced hung).symm, hung.trans same⟩

-- With room for them, all links get ids of their own.
theorem Roomy.run {counts : NodeId → Nat × Nat} {flows : List FlowLink} {w final : Weave} (roomy : w.Roomy flows)
    (counted : w.Counted) (distinct : (w.links.map (·.id)).Nodup)
    (run : flows.foldlM (Weave.add counts) w = .ok final) : (final.links.map (·.id)).Nodup := by
  have kept := run_keeps (P := fun rest v => v.Roomy rest ∧ v.Counted ∧
    (v.links.map (·.id)).Nodup) ?_ ?_ ⟨roomy, counted, distinct⟩ run
  · exact kept.2.2
  · rintro flow rest v _ _ ⟨roomy, counted, distinct⟩
    exact ⟨roomy.tail, counted, distinct⟩
  · rintro flow rest v _ _ ⟨roomy, counted, distinct⟩
    have fresh : (v.linkFor flow).id ∉ v.links.map (·.id) := by
      have free := roomy.fresh counted
      rw [holds, List.any_eq_false] at free
      intro used
      obtain ⟨link, member, same⟩ := List.mem_map.1 used
      exact free link member (beq_iff_eq.2 same)
    refine ⟨roomy.accept, v.accept_counted flow counted, ?_⟩
    rw [accept_links, List.map_append]
    exact List.nodup_append_comm.1 (List.nodup_cons.2 ⟨fresh, distinct⟩)

end Weave

/-! ### The data of a document in a graph -/

theorem Node.le_of_virtualInput? {node : Node} (even : node.flowInputCount = node.flowOutputCount) {slot : Word}
    {index : Nat} (through : node.virtualInput? slot = some index) : node.flowInputCount ≤ index := by
  obtain ⟨dataSlot, lower, rfl⟩ := Option.map_eq_some_iff.1 through
  have bound := slot.toNat_lt
  unfold Word.lower? at lower
  split at lower
  · next behind =>
    cases lower
    rw [Word.ofCount, UInt64.toNat_add, UInt64.toNat_ofNat', Word.toNat_lower, even]
    omega
  · cases lower

theorem Node.isFlow_firstOutput {node : Node} (lead : node.flowSlotsLead = true) {output : OutputSlot}
    (place : node.outputs[node.flowOutputCount]? = some output) : output.isFlow = false := by
  by_contra flow
  have ahead := lt_takeWhile_of_count (p := fun slot : OutputSlot => slot.isFlow) (leadingFlowOutputs_eq lead) place
    (by simpa using flow)
  exact Nat.lt_irrefl _ (leadingFlowOutputs_eq lead ▸ ahead)

/-- The node has the data slots of the other one, behind its sequencing slots. -/
structure Node.Carries (node stored : Node) : Prop where
  id : node.id = stored.id
  lead : node.flowSlotsLead = true
  inputs : ∀ i, node.inputs[node.flowInputCount + i]? = stored.inputs[i]?
  outputs : ∀ i, (node.outputs[node.flowOutputCount + i]?).map (·.linkIds) = (stored.outputs[i]?).map (·.linkIds)
  widgets : stored.WidgetsDiffer → node.WidgetsDiffer

namespace Node

section Carries

variable {node stored : Node} (dataOnly : stored.hasFlowSlot = false)

include dataOnly in
theorem Carries.of_dataOnly : stored.Carries stored := by
  obtain ⟨inputs, outputs⟩ := (hasFlowSlot_eq_false_iff stored).1 dataOnly
  obtain ⟨leadingInputs, leadingOutputs⟩ := leading_eq_zero dataOnly
  have noInputs : stored.flowInputCount = 0 := List.countP_eq_zero.2 (by simpa using inputs)
  have noOutputs : stored.flowOutputCount = 0 := List.countP_eq_zero.2 (by simpa using outputs)
  refine ⟨rfl, ?_, ?_, ?_, fun differ => differ⟩
  · rw [flowSlotsLead, noInputs, noOutputs, leadingInputs, leadingOutputs]
    rfl
  · simp [noInputs]
  · simp [noOutputs]

include dataOnly in
theorem Carries.of_unsequenced (same : node.unsequenced = stored.materializeSlots.unsequenced) :
    node.Carries stored ∧ node.flowInputCount = stored.compactInputs.length ∧
      node.flowOutputCount = stored.compactOutputs.length := by
  have lead : node.flowSlotsLead = true :=
    (flowSlotsLead_congr (inputFlags_congr same) (outputFlags_congr same)).trans
      (flowSlotsLead_materializeSlots dataOnly)
  have counts : node.leadingCounts = stored.compactCounts :=
    (leadingCounts_congr (inputFlags_congr same) (outputFlags_congr same)).trans
      (leadingCounts_materializeSlots dataOnly)
  have inputCount : node.flowInputCount = stored.compactInputs.length := by
    rw [← leadingFlowInputs_eq lead]
    exact congrArg Prod.fst counts
  have outputCount : node.flowOutputCount = stored.compactOutputs.length := by
    rw [← leadingFlowOutputs_eq lead]
    exact congrArg Prod.snd counts
  obtain ⟨inputs, outputs⟩ := (hasFlowSlot_eq_false_iff stored).1 dataOnly
  refine ⟨⟨(congrArg Node.id same :), lead, fun i => ?_, fun i => ?_, ?_⟩, inputCount, outputCount⟩
  · rw [inputCount, ← materialized_input_add i]
    cases found : stored.materializeSlots.inputs[stored.compactInputs.length + i]? with
    | none =>
      have none := congrArg (fun node : Node => node.inputs[stored.compactInputs.length + i]?) same
      simp only [unsequenced, List.getElem?_map, found, Option.map_none, Option.map_eq_none_iff] at none
      exact none
    | some slot =>
      have stands := found
      rw [materialized_input_add] at stands
      exact dataInput_congr same.symm found (inputs slot (List.mem_of_getElem? stands))
  · rw [outputCount]
    have raised : stored.materializeSlots.outputs[stored.compactOutputs.length + i]? =
        stored.outputs[i]?.map (·.raiseIndex stored.compactOutputs.length) := materialized_output_add i
    cases found : stored.outputs[i]? with
    | none =>
      have none := congrArg (fun node : Node => node.outputs[stored.compactOutputs.length + i]?) same
      simp only [unsequenced, List.getElem?_map, raised, found, Option.map_none, Option.map_eq_none_iff] at none
      rw [none]
    | some slot =>
      rw [found, Option.map_some] at raised
      rw [dataOutput_congr same.symm raised (outputs slot (List.mem_of_getElem? found))]
      rfl
  · intro differ
    have names : ∀ node : Node, node.inputs.filterMap (fun slot => slot.widget.map (·.name)) =
        node.unsequenced.inputs.filterMap fun slot => slot.widget.map (·.name) := by
      intro node
      rw [unsequenced, List.filterMap_map]
      simp only [Function.comp_def, InputSlot.widget_unsequenced]
    have ahead : (stored.compactInputs.map (·.toSlot)).filterMap (fun slot => slot.widget.map (·.name)) = [] := by
      rw [List.filterMap_map, List.filterMap_eq_nil_iff]
      exact fun _ _ => rfl
    rw [WidgetsDiffer, names, same, ← names, materializeSlots, List.filterMap_append, ahead]
    exact differ

end Carries

end Node

namespace Document

/-- An input slot holds the link that goes to it, an output slot lists the links that leave it. -/
structure Agrees (doc : Document) : Prop where
  inputs : ∀ node ∈ doc.nodes, ∀ slot input, node.inputs[slot]? = some input → ∀ held,
    input.link = some held ↔ ∃ link ∈ doc.links, link.id = held ∧ link.entersAt node.id slot
  outputs : ∀ node ∈ doc.nodes, ∀ slot output, node.outputs[slot]? = some output → ∀ held,
    held ∈ output.linkIds ↔ ∃ link ∈ doc.links, link.id = held ∧ link.leavesAt node.id slot

theorem Agrees.of_wired {doc : Document} (wired : doc.graph.Wired) : doc.Agrees where
  inputs node member slot input place :=
    wired.inputs node.id slot input ((Graph.inputAt?_eq_some_iff wired.nodeIds ..).2 ⟨node, member, rfl, place⟩)
  outputs node member slot output place :=
    (wired.outputs node.id slot output
      ((Graph.outputAt?_eq_some_iff wired.nodeIds ..).2 ⟨node, member, rfl, place⟩)).2

end Document

namespace Graph

/-- The nodes of the graph have the data slots of the document, and its links go to and from them. -/
structure Carries (g : Graph) (doc : Document) (shifts : NodeId → Nat × Nat) : Prop where
  linkIds : (g.links.map (·.id)).Nodup
  nodes : ∀ node ∈ g.nodes, (shifts node.id).1 = node.flowInputCount ∧ ∃ stored ∈ doc.nodes, node.Carries stored
  links : ∀ link ∈ doc.links, link.raiseSlots shifts ∈ g.links

section Carries

variable {g : Graph} {doc : Document} {shifts : NodeId → Nat × Nat} (carries : g.Carries doc shifts)

include carries in
theorem Carries.link? {link : Link} (member : link ∈ doc.links) :
    g.link? link.id = some (link.raiseSlots shifts) :=
  (find?_eq_some_iff_of_nodup Link.id carries.linkIds _ _).2 ⟨carries.links link member, rfl⟩

variable (agrees : doc.Agrees)

include carries agrees in
theorem Carries.listed {node : Node} (member : node ∈ g.nodes) {output : OutputSlot} {i : Nat}
    (there : node.outputs[node.flowOutputCount + i]? = some output) {held : LinkId} (lists : held ∈ output.linkIds) :
    ∃ link ∈ doc.links, link.id = held ∧ link.origin = node.id := by
  obtain ⟨_, stored, inside, kept⟩ := carries.nodes node member
  have ids := kept.outputs i
  rw [there, Option.map_some] at ids
  obtain ⟨first, found, same⟩ := Option.map_eq_some_iff.1 ids.symm
  obtain ⟨link, linked, sameId, leaves⟩ := (agrees.outputs stored inside i first found held).1 (same ▸ lists)
  exact ⟨link, linked, sameId, leaves.1.trans kept.id.symm⟩

include carries agrees in
theorem Carries.fed {node : Node} (member : node ∈ g.nodes) {targets : List (NodeId × Nat)}
    (first : g.firstTargets? node = some targets) {target : NodeId × Nat} (goes : target ∈ targets) :
    ∃ link ∈ doc.links, link.origin = node.id ∧ (link.raiseSlots shifts).entersAt target.1 target.2 := by
  obtain ⟨output, there, rfl⟩ := Option.map_eq_some_iff.1 first
  obtain ⟨raised, found, rfl⟩ := List.mem_map.1 goes
  obtain ⟨held, lists, known⟩ := List.mem_filterMap.1 found
  obtain ⟨link, linked, rfl, origin⟩ := carries.listed agrees (i := 0) member there lists
  rw [carries.link? linked, Option.some.injEq] at known
  exact ⟨link, linked, origin, by rw [known], by rw [known]⟩

variable (linkIds : (doc.links.map (·.id)).Nodup)
  (fits : ∀ node ∈ doc.nodes, (shifts node.id).1 + node.inputs.length < UInt64.size)

include carries agrees linkIds fits in
theorem Carries.fedOnce : g.FedOnce := by
  intro a b node targetsA targetsB target slot memberA memberB firstA firstB goesA goesB member here place
  obtain ⟨linkA, linkedA, originA, targetA, slotA⟩ := carries.fed agrees memberA firstA goesA
  obtain ⟨linkB, linkedB, originB, targetB, slotB⟩ := carries.fed agrees memberB firstB goesB
  obtain ⟨ahead, stored, inside, kept⟩ := carries.nodes node member
  have bound := fits stored inside
  simp only [Link.raiseSlots] at targetA slotA targetB slotB
  rw [targetA, ← here, ahead] at slotA
  rw [targetB, ← here, ahead] at slotB
  rw [← kept.id, ahead] at bound
  -- Both links go to a data slot, and it holds both of their ids.
  have behind : node.flowInputCount ≤ target.2 := by
    rw [← slotA]
    exact linkA.targetSlot.le_toNat_raise (by omega)
  obtain ⟨i, slot⟩ := Nat.exists_eq_add_of_le behind
  rw [slot, kept.inputs] at place
  obtain ⟨short, _⟩ := List.getElem?_eq_some_iff.1 place
  rw [slot, Word.toNat_raise_eq_iff _ (by omega)] at slotA slotB
  have holdsA := (agrees.inputs stored inside i _ place linkA.id).2
    ⟨linkA, linkedA, rfl, targetA.trans (here.symm.trans kept.id), slotA⟩
  have holdsB := (agrees.inputs stored inside i _ place linkB.id).2
    ⟨linkB, linkedB, rfl, targetB.trans (here.symm.trans kept.id), slotB⟩
  rw [holdsA, Option.some.injEq] at holdsB
  rw [← originA, ← originB, List.inj_on_of_nodup_map linkIds linkedA linkedB holdsB]

end Carries

section Pair

variable {g h : Graph} {a b : Document} {shifts : NodeId → Nat × Nat} (ofA : g.Carries a shifts)
  (ofB : h.Carries b shifts) (links : a.links.Perm b.links) (agrees : a.Agrees)

include ofA ofB links in
theorem Carries.link?_eq {link : Link} (member : link ∈ a.links) : g.link? link.id = h.link? link.id := by
  rw [ofA.link? member, ofB.link? (links.mem_iff.1 member)]

include ofA ofB links agrees in
theorem Carries.input_eq {node : Node} (member : node ∈ g.nodes) {slot : Nat} {input : InputSlot}
    (place : node.inputs[slot]? = some input) (data : input.isFlow = false) :
    input.link.bind g.link? = input.link.bind h.link? := by
  cases holds : input.link with
  | none => rfl
  | some held =>
    obtain ⟨_, stored, inside, kept⟩ := ofA.nodes node member
    obtain ⟨i, rfl⟩ := Nat.exists_eq_add_of_le ((Node.isFlow_eq_false_iff kept.lead place).1 data)
    rw [kept.inputs] at place
    obtain ⟨link, linked, rfl, _⟩ := (agrees.inputs stored inside i input place held).1 holds
    exact ofA.link?_eq ofB links linked

include ofA ofB links agrees in
theorem Carries.output_eq {node : Node} (member : node ∈ g.nodes) {output : OutputSlot}
    (place : node.outputs[node.flowOutputCount]? = some output) : g.targetsOf output = h.targetsOf output := by
  have same : output.linkIds.filterMap g.link? = output.linkIds.filterMap h.link? := by
    apply List.filterMap_congr
    intro held lists
    obtain ⟨link, linked, rfl, _⟩ := ofA.listed agrees (i := 0) member place lists
    exact ofA.link?_eq ofB links linked
  rw [targetsOf, targetsOf, same]

variable (alike : ∀ id, (g.node? id).map (·.unsequenced) = (h.node? id).map (·.unsequenced))

include ofA ofB links agrees alike in
theorem Carries.incoming?_eq {id : NodeId} {node : Node} (found : g.node? id = some node) {slot : Nat}
    {input : InputSlot} (place : node.inputs[slot]? = some input) (data : input.isFlow = false) :
    g.incoming? id slot = h.incoming? id slot := by
  obtain ⟨other, foundToo, same⟩ := exists_of_map_eq (alike id) found
  rw [incoming?, incoming?, found, foundToo, Option.bind_some, Option.bind_some, Node.inputLink, Node.inputLink, place,
    Node.dataInput_congr same place data]
  exact ofA.input_eq ofB links agrees (List.mem_of_find?_eq_some found) place data

include ofA ofB links agrees alike in
/-- Virtual nodes that have as many sequencing inputs as outputs pass data on from data inputs only. -/
theorem Carries.sameData (even : ∀ node ∈ g.nodes, node.flowInputCount = node.flowOutputCount) : g.SameData h where
  nodes := alike
  fed _ _ _ _ found place data := ofA.incoming?_eq ofB links agrees alike found place data
  passed id node slot found := by
    have member := List.mem_of_find?_eq_some found
    cases through : node.virtualInput? slot with
    | none => rfl
    | some index =>
      have behind := Node.le_of_virtualInput? (even node member) through
      rw [Option.bind_some, Option.bind_some]
      obtain ⟨_, stored, inside, kept⟩ := ofA.nodes node member
      cases place : node.inputs[index]? with
      | some input =>
        exact ofA.incoming?_eq ofB links agrees alike found place ((Node.isFlow_eq_false_iff kept.lead place).2 behind)
      | none =>
        obtain ⟨other, foundToo, same⟩ := exists_of_map_eq (alike id) found
        have placeToo := congrArg (fun node : Node => node.inputs[index]?) same
        simp only [Node.unsequenced, List.getElem?_map, place, Option.map_none] at placeToo
        rw [incoming?, incoming?, found, foundToo, Option.bind_some, Option.bind_some, Node.inputLink, Node.inputLink,
          place, Option.map_eq_none_iff.1 placeToo.symm]
        rfl
  targets id := by
    cases found : g.node? id with
    | none =>
      have none := alike id
      rw [found, Option.map_none] at none
      rw [Option.map_eq_none_iff.1 none.symm]
      rfl
    | some node =>
      obtain ⟨other, foundToo, same⟩ := exists_of_map_eq (alike id) found
      have count := Node.flowOutputCount_congr (Node.outputFlags_congr same)
      have member := List.mem_of_find?_eq_some found
      rw [foundToo, Option.bind_some, Option.bind_some, firstTargets?, firstTargets?, ← count]
      cases place : node.outputs[node.flowOutputCount]? with
      | none =>
        have placeToo := congrArg (fun other : Node => other.outputs[node.flowOutputCount]?) same
        simp only [Node.unsequenced, List.getElem?_map, place, Option.map_none] at placeToo
        rw [Option.map_eq_none_iff.1 placeToo.symm]
        rfl
      | some output =>
        obtain ⟨_, stored, _, kept⟩ := ofA.nodes node member
        have data := Node.isFlow_firstOutput kept.lead place
        rw [Node.dataOutput_congr same place data, Option.map_some, Option.map_some,
          ofA.output_eq ofB links agrees member place]

end Pair

end Graph
end Patchbay
