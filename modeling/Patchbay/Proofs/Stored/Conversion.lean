import Mathlib.Data.List.TakeWhile
import Patchbay.Proofs.Sequencing.Compaction
import Patchbay.Proofs.Sequencing.Chain
import Patchbay.Proofs.Stored.Clean

/-!
Documents that were expanded or compacted are read back, unless a slot carries a member along that its other form
names. Main statement: `Document.ofText_converted`, with the exact condition for both directions.
-/
set_option autoImplicit false

namespace Patchbay

theorem Fields.Spare.iff_of_names {levels : Nat} {names : List String} {fields : Fields}
    (spare : fields.Spare levels names) (others : List String) :
    fields.Spare levels others ↔ ∀ name ∈ others.filter (· ∉ names), name ∉ fields.map Prod.fst := by
  constructor
  · intro free name other there
    obtain ⟨member, own, rfl⟩ := List.mem_map.1 there
    exact free.foreign member own (List.mem_filter.1 other).1
  · intro free
    refine ⟨spare.distinct, fun member own other => ?_, spare.sound⟩
    refine free member.1 (List.mem_filter.2 ⟨other, ?_⟩) (List.mem_map_of_mem own)
    exact decide_eq_true (spare.foreign member own)

/-! ### One slot -/

/-- Nothing in this slot has the name of a field that only an ordinary input has. -/
def FlowInput.Portable (slot : FlowInput) : Prop :=
  "link" ∉ slot.extra.map Prod.fst ∧ "widget" ∉ slot.extra.map Prod.fst

def FlowOutput.Portable (slot : FlowOutput) : Prop := "links" ∉ slot.extra.map Prod.fst

/-- Nothing in this slot has the name of a field that only a stored sequencing input has. -/
def InputSlot.Storable (slot : InputSlot) : Prop := "links" ∉ slot.extra.map Prod.fst

def OutputSlot.Storable (slot : OutputSlot) : Prop := "link" ∉ slot.extra.map Prod.fst

section Slots

variable {levels : Nat}

theorem FlowInput.clean_toSlot {slot : FlowInput} (clean : slot.Clean levels) :
    slot.toSlot.Clean levels ↔ slot.Portable := by
  have names := clean.iff_of_names (InputSlot.shape.fields.map (·.name))
  rw [show (InputSlot.shape.fields.map (·.name)).filter (· ∉ FlowInput.shape.fields.map (·.name)) =
    ["link", "widget"] by decide] at names
  rw [List.forall_mem_cons, List.forall_mem_singleton] at names
  exact ⟨fun free => names.1 free.extra, fun free => ⟨nofun, names.2 free⟩⟩

theorem FlowOutput.clean_toSlot {slot : FlowOutput} (clean : slot.Clean levels) (index : Nat) :
    (slot.toSlot index).Clean levels ↔ slot.Portable := by
  have names := clean.iff_of_names (OutputSlot.shape.fields.map (·.name))
  rw [show (OutputSlot.shape.fields.map (·.name)).filter (· ∉ FlowOutput.shape.fields.map (·.name)) =
    ["links"] by decide] at names
  rwa [List.forall_mem_singleton] at names

theorem InputSlot.clean_toFlowInput {slot : InputSlot} (clean : slot.Clean levels) :
    slot.toFlowInput.Clean levels ↔ slot.Storable := by
  have names := clean.extra.iff_of_names (FlowInput.shape.fields.map (·.name))
  rw [show (FlowInput.shape.fields.map (·.name)).filter (· ∉ InputSlot.shape.fields.map (·.name)) =
    ["links"] by decide] at names
  rwa [List.forall_mem_singleton] at names

theorem OutputSlot.clean_toFlowOutput {slot : OutputSlot} (clean : slot.Clean levels) :
    slot.toFlowOutput.Clean levels ↔ slot.Storable := by
  have names := clean.iff_of_names (FlowOutput.shape.fields.map (·.name))
  rw [show (FlowOutput.shape.fields.map (·.name)).filter (· ∉ OutputSlot.shape.fields.map (·.name)) =
    ["link"] by decide] at names
  rwa [List.forall_mem_singleton] at names

end Slots

/-! ### One node -/

theorem forall_modifyHead {α : Type} {P : α → Prop} {change : α → α} (kept : ∀ x, P x → P (change x)) {xs : List α}
    (all : ∀ x ∈ xs, P x) : ∀ x ∈ xs.modifyHead change, P x := by
  cases xs with
  | nil => exact all
  | cons x rest =>
    obtain ⟨first, others⟩ := List.forall_mem_cons.1 all
    exact List.forall_mem_cons.2 ⟨kept x first, others⟩

theorem forall_split {α : Type} {p : α → Bool} (before after : α → Prop) {xs : List α}
    (rest : ∀ x ∈ xs.dropWhile p, p x = false) : (∀ x ∈ xs, if p x then before x else after x) ↔
      (∀ x ∈ xs.takeWhile p, before x) ∧ ∀ x ∈ xs.dropWhile p, after x := by
  have lead : (∀ x ∈ xs.takeWhile p, if p x then before x else after x) ↔ ∀ x ∈ xs.takeWhile p, before x :=
    forall₂_congr fun x member => by rw [if_pos (List.mem_takeWhile_imp member)]
  have follow : (∀ x ∈ xs.dropWhile p, if p x then before x else after x) ↔ ∀ x ∈ xs.dropWhile p, after x :=
    forall₂_congr fun x member => by rw [if_neg (by rw [rest x member]; exact Bool.false_ne_true)]
  rw [← lead, ← follow, ← List.forall_mem_append, List.takeWhile_append_dropWhile]

namespace Node

/-- The sequencing slots that are stored apart can become ordinary ones. -/
structure Portable (node : Node) : Prop where
  inputs : ∀ slot ∈ node.compactInputs, slot.Portable
  outputs : ∀ slot ∈ node.compactOutputs, slot.Portable

/-- The sequencing slots among the ordinary ones can be stored apart. -/
structure Storable (node : Node) : Prop where
  inputs : ∀ slot ∈ node.inputs, slot.isFlow → slot.Storable
  outputs : ∀ slot ∈ node.outputs, slot.isFlow → slot.Storable

/-- The node is clean once its sequencing slots are stored apart. -/
structure Strippable (levels : Nat) (node : Node) : Prop where
  inputs : ∀ slot ∈ node.inputs,
    if slot.isFlow then slot.toFlowInput.Clean (levels - 2) else slot.Clean (levels - 2)
  outputs : ∀ slot ∈ node.outputs,
    if slot.isFlow then slot.toFlowOutput.Clean (levels - 2) else slot.Clean (levels - 2)
  widgets : ∀ values ∈ node.widgets, ∀ value ∈ values, value.Sound (levels - 2)
  extra : node.extra.Spare (levels - 1) (shape.fields.map (·.name))

variable {levels : Nat} {node : Node}

/-! Links -/

theorem clean_unlinked : node.unlinked.Clean levels ↔ node.Clean levels := by
  have inputs : (∀ slot ∈ node.unlinked.inputs, slot.Clean (levels - 2)) ↔
      ∀ slot ∈ node.inputs, slot.Clean (levels - 2) :=
    List.forall_mem_map.trans <| forall₂_congr fun slot _ =>
      ⟨fun clean => ⟨clean.widget, clean.extra⟩, fun clean => ⟨clean.widget, clean.extra⟩⟩
  have outputs : (∀ slot ∈ node.unlinked.outputs, slot.Clean (levels - 2)) ↔
      ∀ slot ∈ node.outputs, slot.Clean (levels - 2) := List.forall_mem_map
  exact
    ⟨fun clean => ⟨inputs.1 clean.inputs, outputs.1 clean.outputs, clean.widgets, clean.flowInputs, clean.flowOutputs,
      clean.extra⟩,
    fun clean => ⟨inputs.2 clean.inputs, outputs.2 clean.outputs, clean.widgets, clean.flowInputs, clean.flowOutputs,
      clean.extra⟩⟩

theorem strippable_unlinked : node.unlinked.Strippable levels ↔ node.Strippable levels := by
  have inputs : (∀ slot ∈ node.unlinked.inputs,
        if slot.isFlow then slot.toFlowInput.Clean (levels - 2) else slot.Clean (levels - 2)) ↔
      ∀ slot ∈ node.inputs, if slot.isFlow then slot.toFlowInput.Clean (levels - 2) else slot.Clean (levels - 2) := by
    refine List.forall_mem_map.trans <| forall₂_congr fun slot _ => ?_
    cases flow : slot.isFlow <;> simp only [show slot.unlinked.isFlow = _ from flow]
    · exact ⟨fun clean => ⟨clean.widget, clean.extra⟩, fun clean => ⟨clean.widget, clean.extra⟩⟩
    · exact Iff.rfl
  have outputs : (∀ slot ∈ node.unlinked.outputs,
        if slot.isFlow then slot.toFlowOutput.Clean (levels - 2) else slot.Clean (levels - 2)) ↔
      ∀ slot ∈ node.outputs, if slot.isFlow then slot.toFlowOutput.Clean (levels - 2) else slot.Clean (levels - 2) :=
    List.forall_mem_map
  exact ⟨fun strips => ⟨inputs.1 strips.inputs, outputs.1 strips.outputs, strips.widgets, strips.extra⟩,
    fun strips => ⟨inputs.2 strips.inputs, outputs.2 strips.outputs, strips.widgets, strips.extra⟩⟩

/-! Slots -/

theorem Clean.compactInputs (clean : node.Clean levels) : ∀ slot ∈ node.compactInputs, slot.Clean (levels - 2) := by
  intro slot member
  unfold Node.compactInputs at member
  cases stored : node.flowInputs with
  | none => rw [stored] at member; cases member
  | some slots =>
    rw [stored] at member
    exact clean.flowInputs slots stored slot member

theorem Clean.compactOutputs (clean : node.Clean levels) : ∀ slot ∈ node.compactOutputs, slot.Clean (levels - 2) := by
  intro slot member
  unfold Node.compactOutputs at member
  cases stored : node.flowOutputs with
  | none => rw [stored] at member; cases member
  | some slots =>
    rw [stored] at member
    exact clean.flowOutputs slots stored slot member

theorem clean_materializeSlots (clean : node.Clean levels) : node.materializeSlots.Clean levels ↔ node.Portable := by
  constructor
  · intro free
    refine ⟨fun slot member => ?_, fun slot member => ?_⟩
    · refine (FlowInput.clean_toSlot (clean.compactInputs slot member)).1 (free.inputs _ ?_)
      exact List.mem_append_left _ (List.mem_map_of_mem member)
    · obtain ⟨index, inside, rfl⟩ := List.getElem_of_mem member
      refine (FlowOutput.clean_toSlot (clean.compactOutputs _ member) index).1 (free.outputs _ ?_)
      exact List.mem_append_left _ (List.mem_mapIdx.2 ⟨index, inside, rfl⟩)
  · intro portable
    refine ⟨fun slot member => ?_, fun slot member => ?_, clean.widgets, nofun, nofun, clean.extra⟩
    · rcases List.mem_append.1 member with stored | own
      · obtain ⟨old, there, rfl⟩ := List.mem_map.1 stored
        exact (FlowInput.clean_toSlot (clean.compactInputs old there)).2 (portable.inputs old there)
      · exact clean.inputs slot own
    · rcases List.mem_append.1 member with stored | own
      · obtain ⟨index, inside, rfl⟩ := List.mem_mapIdx.1 stored
        have there := List.getElem_mem inside
        exact (FlowOutput.clean_toSlot (clean.compactOutputs _ there) index).2 (portable.outputs _ there)
      · obtain ⟨old, there, rfl⟩ := List.mem_map.1 own
        exact clean.outputs old there

theorem strippable_iff (clean : node.Clean levels) : node.Strippable levels ↔ node.Storable := by
  constructor
  · intro strips
    refine ⟨fun slot member flow => ?_, fun slot member flow => ?_⟩
    · have stored := strips.inputs slot member
      rw [if_pos flow] at stored
      exact (InputSlot.clean_toFlowInput (clean.inputs slot member)).1 stored
    · have stored := strips.outputs slot member
      rw [if_pos flow] at stored
      exact (OutputSlot.clean_toFlowOutput (clean.outputs slot member)).1 stored
  · intro storable
    refine ⟨fun slot member => ?_, fun slot member => ?_, clean.widgets, clean.extra⟩
    · split
      · next flow => exact (InputSlot.clean_toFlowInput (clean.inputs slot member)).2 (storable.inputs slot member flow)
      · exact clean.inputs slot member
    · split
      · next flow =>
        exact (OutputSlot.clean_toFlowOutput (clean.outputs slot member)).2 (storable.outputs slot member flow)
      · exact clean.outputs slot member

-- What was stored apart before can be stored apart again.
theorem strippable_materializeSlots (clean : node.Clean levels) :
    node.materializeSlots.Strippable levels ↔ node.Strippable levels := by
  constructor
  · intro strips
    refine ⟨fun slot member => strips.inputs slot (List.mem_append_right _ member), fun slot member => ?_,
      strips.widgets, strips.extra⟩
    exact strips.outputs (slot.raiseIndex _) (List.mem_append_right _ (List.mem_map_of_mem member))
  · intro strips
    refine ⟨fun slot member => ?_, fun slot member => ?_, strips.widgets, strips.extra⟩
    · rcases List.mem_append.1 member with stored | own
      · obtain ⟨old, there, rfl⟩ := List.mem_map.1 stored
        rw [if_pos (toSlot_isFlow old)]
        exact clean.compactInputs old there
      · exact strips.inputs slot own
    · rcases List.mem_append.1 member with stored | own
      · obtain ⟨index, inside, rfl⟩ := List.mem_mapIdx.1 stored
        rw [if_pos (toSlot_output_isFlow _ index)]
        exact clean.compactOutputs node.compactOutputs[index] (List.getElem_mem inside)
      · obtain ⟨old, there, rfl⟩ := List.mem_map.1 own
        exact strips.outputs old there

theorem clean_stripSlots (lead : node.flowSlotsLead = true) :
    node.stripSlots.Clean levels ↔ node.Strippable levels := by
  simp only [flowSlotsLead, Bool.and_eq_true, beq_iff_eq] at lead
  have inputs := forall_split (fun slot : InputSlot => slot.toFlowInput.Clean (levels - 2)) (·.Clean (levels - 2))
    (dropWhile_none_of_count _ node.inputs lead.1)
  have outputs := forall_split (fun slot : OutputSlot => slot.toFlowOutput.Clean (levels - 2)) (·.Clean (levels - 2))
    (dropWhile_none_of_count _ node.outputs lead.2)
  rw [← take_leadingFlowInputs, ← drop_leadingFlowInputs] at inputs
  rw [← take_leadingFlowOutputs, ← drop_leadingFlowOutputs] at outputs
  constructor
  · intro clean
    refine ⟨inputs.2 ⟨fun slot member => ?_, clean.inputs⟩, outputs.2 ⟨fun slot member => ?_, fun slot member => ?_⟩,
      clean.widgets, clean.extra⟩
    · exact clean.flowInputs _ rfl _ (List.mem_map_of_mem member)
    · exact clean.flowOutputs _ rfl _ (List.mem_map_of_mem member)
    · exact clean.outputs (slot.lowerIndex _) (List.mem_map_of_mem member)
  · intro strips
    refine ⟨(inputs.1 strips.inputs).2, List.forall_mem_map.2 (outputs.1 strips.outputs).2, strips.widgets, ?_, ?_,
      strips.extra⟩
    · rintro _ ⟨⟩
      exact List.forall_mem_map.2 (inputs.1 strips.inputs).1
    · rintro _ ⟨⟩
      exact List.forall_mem_map.2 (outputs.1 strips.outputs).1

/-! Chains -/

theorem Clean.linkFirstFlowOutput (clean : node.Clean levels) (id : LinkId) :
    (node.linkFirstFlowOutput id).Clean levels := by
  refine ⟨clean.inputs, clean.outputs, clean.widgets, clean.flowInputs, fun slots stored => ?_, clean.extra⟩
  obtain ⟨old, there, rfl⟩ := Option.map_eq_some_iff.1 stored
  refine forall_modifyHead (fun slot kept => ?_) (clean.flowOutputs old there)
  exact kept

theorem Clean.linkFirstFlowInput (clean : node.Clean levels) (id : LinkId) :
    (node.linkFirstFlowInput id).Clean levels := by
  refine ⟨clean.inputs, clean.outputs, clean.widgets, fun slots stored => ?_, clean.flowOutputs, clean.extra⟩
  obtain ⟨old, there, rfl⟩ := Option.map_eq_some_iff.1 stored
  refine forall_modifyHead (fun slot kept => ?_) (clean.flowInputs old there)
  exact kept

theorem compactOutputs_linkFirst (id : LinkId) (node : Node) : (node.linkFirstFlowOutput id).compactOutputs =
    node.compactOutputs.modifyHead ({ · with link := some id }) := by
  rw [Node.compactOutputs, Node.linkFirstFlowOutput, Node.compactOutputs]
  cases node.flowOutputs <;> rfl

theorem compactInputs_linkFirst (id : LinkId) (node : Node) : (node.linkFirstFlowInput id).compactInputs =
    node.compactInputs.modifyHead ({ · with links := some [some id] }) := by
  rw [Node.compactInputs, Node.linkFirstFlowInput, Node.compactInputs]
  cases node.flowInputs <;> rfl

theorem Portable.linkFirstFlowOutput (portable : node.Portable) (id : LinkId) :
    (node.linkFirstFlowOutput id).Portable := by
  refine ⟨portable.inputs, compactOutputs_linkFirst id node ▸ forall_modifyHead (fun slot kept => ?_) portable.outputs⟩
  exact kept

theorem Portable.linkFirstFlowInput (portable : node.Portable) (id : LinkId) :
    (node.linkFirstFlowInput id).Portable := by
  refine ⟨compactInputs_linkFirst id node ▸ forall_modifyHead (fun slot kept => ?_) portable.inputs, portable.outputs⟩
  exact kept

theorem Clean.withChainSlots (clean : node.Clean levels) (r : Registry) : (node.withChainSlots r).Clean levels := by
  unfold Node.withChainSlots
  split
  · refine ⟨clean.inputs, clean.outputs, clean.widgets, ?_, ?_, clean.extra⟩ <;> rintro _ ⟨⟩ <;> exact nofun
  · refine ⟨clean.inputs, clean.outputs, clean.widgets, ?_, ?_, clean.extra⟩ <;> rintro _ ⟨⟩
    · exact List.forall_mem_singleton.2 (Fields.spare_nil ..)
    · exact List.forall_mem_singleton.2 (Fields.spare_nil ..)

theorem portable_withChainSlots (r : Registry) (node : Node) : (node.withChainSlots r).Portable := by
  unfold withChainSlots
  split
  · exact ⟨nofun, nofun⟩
  · exact ⟨List.forall_mem_singleton.2 ⟨List.not_mem_nil, List.not_mem_nil⟩,
      List.forall_mem_singleton.2 List.not_mem_nil⟩

end Node

/-! ### All nodes -/

theorem forall_updateLast {P : Node → Prop} {id : NodeId} {change : Node → Node}
    (kept : ∀ node, P node → P (change node)) {nodes : List Node} (all : ∀ node ∈ nodes, P node) :
    ∀ node ∈ updateLast id change nodes, P node := by
  induction nodes with
  | nil => exact all
  | cons node rest ih =>
    obtain ⟨first, others⟩ := List.forall_mem_cons.1 all
    unfold updateLast
    split
    · exact List.forall_mem_cons.2 ⟨kept node first, others⟩
    · exact List.forall_mem_cons.2 ⟨first, ih others⟩

theorem forall_linkChain {P : Node → Prop}
    (origin : ∀ (id : LinkId) (node : Node), P node → P (node.linkFirstFlowOutput id))
    (target : ∀ (id : LinkId) (node : Node), P node → P (node.linkFirstFlowInput id)) (chain : List FlowLink)
    {nodes : List Node} (all : ∀ node ∈ nodes, P node) : ∀ node ∈ linkChain nodes chain, P node := by
  induction chain generalizing nodes with
  | nil => exact all
  | cons link rest ih => exact ih (forall_updateLast (target link.id) (forall_updateLast (origin link.id) all))

/-- Links do not matter to a property, so it holds of lists that differ by links alike. -/
theorem forall_congr_unlinked {P : Node → Prop} (kept : ∀ node : Node, P node.unlinked ↔ P node) {a b : List Node}
    (same : a.map (·.unlinked) = b.map (·.unlinked)) : (∀ node ∈ a, P node) ↔ ∀ node ∈ b, P node := by
  have bare : ∀ nodes : List Node, (∀ node ∈ nodes, P node) ↔ ∀ node ∈ nodes.map (·.unlinked), P node :=
    fun nodes => (List.forall_mem_map.trans (forall₂_congr fun node _ => kept node)).symm
  rw [bare a, same, bare b]

namespace Weave

theorem unlinked_accept (w : Weave) (flow : FlowLink) :
    (w.accept flow).nodes.map (·.unlinked) = w.nodes.map (·.unlinked) := by
  have hung : ∀ (link : Link) (node : Node), (node.hangTarget link).unlinked = node.unlinked ∧
      (node.hangOrigin link).unlinked = node.unlinked := by
    intro link node
    refine ⟨?_, ?_⟩
    · have inputs : (node.hangTarget link).inputs.map (·.unlinked) = node.inputs.map (·.unlinked) :=
        map_modify_same _ _ (by intro slot; rfl) _ _
      rw [Node.unlinked, inputs]
      rfl
    · have outputs : (node.hangOrigin link).outputs.map (·.unlinked) = node.outputs.map (·.unlinked) :=
        map_modify_same _ _ (by intro slot; rfl) _ _
      rw [Node.unlinked, outputs]
      rfl
  rw [accept_nodes, updateLast_map_view, updateLast_map_view]
  · exact fun node _ => (hung _ node).2
  · exact fun node _ => (hung _ node).1

theorem unlinked_foldlM (counts : NodeId → Nat × Nat) (flows : List FlowLink) (w final : Weave)
    (run : flows.foldlM (Weave.add counts) w = .ok final) :
    final.nodes.map (·.unlinked) = w.nodes.map (·.unlinked) := by
  refine run_keeps (P := fun _ v => v.nodes.map (·.unlinked) = w.nodes.map (·.unlinked)) ?_ ?_ rfl run
  · exact fun _ _ _ _ _ same => same
  · exact fun flow _ v _ _ same => (v.unlinked_accept flow).trans same

end Weave

theorem tail_of_mem_chainLinks {next : LinkId} {order : List NodeId} {flow : FlowLink}
    (member : flow ∈ chainLinks next order) : flow.tail = [] := by
  induction order generalizing next with
  | nil => cases member
  | cons origin rest ih =>
    cases rest with
    | nil => cases member
    | cons target rest =>
      rcases List.mem_cons.1 member with rfl | later
      · rfl
      · exact ih later

namespace Document

/-- No stored sequencing slot brings along a member that an ordinary slot has a field for. -/
def CarriesToSlots (doc : Document) : Prop := ∀ node ∈ doc.nodes, node.Portable

/-- No sequencing slot brings along a member that a stored sequencing slot has a field for. -/
def CarriesToStored (doc : Document) : Prop := ∀ node ∈ doc.nodes, node.Storable

variable {levels : Nat} {doc runtime : Document}

theorem unlinked_materialize (done : doc.materialize = .ok runtime) (compact : doc.hasCompactFlow = true) :
    runtime.nodes.map (·.unlinked) = (doc.nodes.map (·.materializeSlots)).map (·.unlinked) := by
  obtain ⟨_, w, run, rfl⟩ := (materialize_eq_ok_iff doc runtime compact).1 done
  exact Weave.unlinked_foldlM _ _ _ _ run

theorem carriesToSlots_of_not_compact (plain : doc.hasCompactFlow = false) : doc.CarriesToSlots := by
  intro node member
  simp only [hasCompactFlow, Bool.or_eq_false_iff, List.any_eq_false] at plain
  have bare := plain.2 node member
  simp only [Bool.or_eq_true, not_or, Bool.not_eq_true, Option.isSome_eq_false_iff, Option.isNone_iff_eq_none] at bare
  constructor
  · rw [Node.compactInputs, bare.1]
    exact List.forall_mem_nil _
  · rw [Node.compactOutputs, bare.2]
    exact List.forall_mem_nil _

theorem clean_materialize (clean : doc.Clean levels) (done : doc.materialize = .ok runtime) :
    runtime.Clean levels ↔ doc.CarriesToSlots := by
  cases compact : doc.hasCompactFlow with
  | false =>
    rw [materialize_of_not_compact doc compact] at done
    cases done
    exact iff_of_true clean (carriesToSlots_of_not_compact compact)
  | true =>
    have slots : (∀ node ∈ runtime.nodes, node.Clean (levels - 2)) ↔ doc.CarriesToSlots :=
      (forall_congr_unlinked (fun _ => Node.clean_unlinked) (unlinked_materialize done compact)).trans <|
        List.forall_mem_map.trans <| forall₂_congr fun node member =>
          Node.clean_materializeSlots (clean.nodes node member)
    obtain ⟨_, w, _, rfl⟩ := (materialize_eq_ok_iff doc runtime compact).1 done
    exact ⟨fun whole => slots.1 whole.nodes, fun carries => ⟨slots.2 carries, nofun, clean.extra, clean.rest⟩⟩

theorem strippable_materialize (clean : doc.Clean levels) (done : doc.materialize = .ok runtime) :
    (∀ node ∈ runtime.nodes, node.Strippable (levels - 2)) ↔ doc.CarriesToStored := by
  have own : (∀ node ∈ doc.nodes, node.Strippable (levels - 2)) ↔ doc.CarriesToStored :=
    forall₂_congr fun node member => Node.strippable_iff (clean.nodes node member)
  rw [← own]
  cases compact : doc.hasCompactFlow with
  | false =>
    rw [materialize_of_not_compact doc compact] at done
    cases done
    exact Iff.rfl
  | true =>
    exact (forall_congr_unlinked (fun _ => Node.strippable_unlinked) (unlinked_materialize done compact)).trans <|
      List.forall_mem_map.trans <|
        forall₂_congr fun node member => Node.strippable_materializeSlots (clean.nodes node member)

theorem extra_materialize (done : doc.materialize = .ok runtime) :
    runtime.extra = doc.extra ∧ runtime.rest = doc.rest := by
  cases compact : doc.hasCompactFlow with
  | false =>
    rw [materialize_of_not_compact doc compact] at done
    cases done
    exact ⟨rfl, rfl⟩
  | true =>
    obtain ⟨_, w, _, rfl⟩ := (materialize_eq_ok_iff doc runtime compact).1 done
    exact ⟨rfl, rfl⟩

theorem clean_addChain (clean : doc.Clean levels) (r : Registry) :
    (doc.addChain r).Clean levels ∧ (doc.addChain r).CarriesToSlots := by
  have chained : ∀ node ∈ (doc.addChain r).nodes, node.Clean (levels - 2) ∧ node.Portable :=
    forall_linkChain (fun id node kept => ⟨kept.1.linkFirstFlowOutput id, kept.2.linkFirstFlowOutput id⟩)
      (fun id node kept => ⟨kept.1.linkFirstFlowInput id, kept.2.linkFirstFlowInput id⟩) _ <|
      List.forall_mem_map.2 fun node member =>
        ⟨(clean.nodes node member).withChainSlots r, node.portable_withChainSlots r⟩
  refine ⟨⟨fun node member => (chained node member).1, ?_, clean.extra, clean.rest⟩,
    fun node member => (chained node member).2⟩
  rintro _ ⟨⟩ flow member
  have plain := tail_of_mem_chainLinks member
  constructor <;> rw [plain]
  · exact Nat.zero_le _
  · exact nofun

theorem clean_expand (clean : doc.Clean levels) {r : Registry} (done : doc.expand r = .ok runtime) :
    runtime.Clean levels ↔ doc.CarriesToSlots := by
  unfold expand at done
  split at done
  · next chain =>
    obtain ⟨chained, carries⟩ := clean_addChain clean r
    have plain : doc.hasCompactFlow = false := by
      simp only [needsChain, Bool.and_eq_true, Bool.not_eq_true'] at chain
      exact chain.1.2
    exact iff_of_true ((clean_materialize chained done).2 carries) (carriesToSlots_of_not_compact plain)
  · exact clean_materialize clean done

theorem clean_compact (clean : doc.Clean levels) {stored : Document} (done : doc.compact = .ok stored) :
    stored.Clean levels ↔ doc.CarriesToStored := by
  obtain ⟨runtime, materialized, lead, rfl⟩ := (compact_eq_ok_iff doc stored).1 done
  rw [← strippable_materialize clean materialized]
  have nodes : (∀ node ∈ runtime.stripped.nodes, node.Clean (levels - 2)) ↔
      ∀ node ∈ runtime.nodes, node.Strippable (levels - 2) :=
    List.forall_mem_map.trans (forall₂_congr fun node member => Node.clean_stripSlots (lead node member))
  obtain ⟨extra, rest⟩ := extra_materialize materialized
  refine ⟨fun whole => nodes.1 whole.nodes, fun strips => ⟨nodes.2 strips, ?_, extra ▸ clean.extra, rest ▸ clean.rest⟩⟩
  rintro _ ⟨⟩ flow member
  obtain ⟨link, _, rfl⟩ := List.mem_map.1 member
  exact ⟨Nat.le_refl _, List.forall_mem_singleton.2 (.text _ _)⟩

/-! ### Reading back -/

theorem ofText_render_iff (floats : doc.FloatsReadBack) :
    codec.ofText doc.render = .ok doc ↔ doc.Clean Source.nestingLimit :=
  ⟨clean_of_ofText, fun clean => ofText_render clean floats⟩

-- A member as the mark of a widget is stored.
def marked : Json := .object [("name", .text "seed")]

theorem sound_marked {levels : Nat} (deep : 2 ≤ levels) : marked.Sound levels :=
  Json.Sound.object_of_deep deep (by decide) (List.forall_mem_singleton.2 (.text _ _))

-- A stored sequencing input with a member that it has no field for.
def bringing (key : String) : Document :=
  { empty with
    nodes := [{ Node.plain (.number 1) "Load" with
      flowInputs := some [{ FlowInput.plain "FROM" with extra := [(key, marked)] }] }] }

-- The same input as an ordinary one, with the same member.
def bringingOn (key : String) : Document :=
  { empty with
    nodes := [{ Node.plain (.number 1) "Load" with
      inputs := [{ InputSlot.plain "FROM" flowType with extra := [(key, marked)] }] }]
    supportsFlow := true }

section Bringing

variable {key : String}

theorem clean_bringing (foreign : key ∉ FlowInput.shape.fields.map (·.name)) :
    (bringing key).Clean Source.nestingLimit := by
  have slot : FlowInput.Clean (Source.nestingLimit - 2 - 2)
      { FlowInput.plain "FROM" with extra := [(key, marked)] } :=
    (Fields.spare_nil _ _).put foreign (sound_marked (by decide))
  have node : ∀ node ∈ (bringing key).nodes, node.Clean (Source.nestingLimit - 2) := by
    refine List.forall_mem_singleton.2 ⟨nofun, nofun, nofun, ?_, nofun, Fields.spare_nil ..⟩
    rintro _ ⟨⟩
    exact List.forall_mem_singleton.2 slot
  exact ⟨node, nofun, ⟨nofun, Fields.spare_nil ..⟩, Fields.spare_nil ..⟩

theorem clean_bringingOn (foreign : key ∉ InputSlot.shape.fields.map (·.name)) :
    (bringingOn key).Clean Source.nestingLimit := by
  have slot : InputSlot.Clean (Source.nestingLimit - 2 - 2)
      { InputSlot.plain "FROM" flowType with extra := [(key, marked)] } :=
    ⟨nofun, (Fields.spare_nil _ _).put foreign (sound_marked (by decide))⟩
  have node : ∀ node ∈ (bringingOn key).nodes, node.Clean (Source.nestingLimit - 2) :=
    List.forall_mem_singleton.2 ⟨List.forall_mem_singleton.2 slot, nofun, nofun, nofun, nofun, Fields.spare_nil ..⟩
  exact ⟨node, nofun, ⟨nofun, Fields.spare_nil ..⟩, Fields.spare_nil ..⟩

theorem floatsReadBack_of_naturals {words : List UInt64} (numbers : doc.toJson.numbers = words.map .natural) :
    doc.FloatsReadBack := by
  intro x member
  rw [numbers] at member
  obtain ⟨_, _, other⟩ := List.mem_map.1 member
  cases other

theorem numbers_bringing : (bringing key).toJson.numbers = [1, 0].map .natural := rfl

theorem numbers_bringingOn : (bringingOn key).toJson.numbers = [1, 0].map .natural := rfl

theorem numbers_stripped_bringingOn : (bringingOn key).stripped.toJson.numbers = [1, 0].map .natural := rfl

theorem expand_bringing : (bringing key).expand .standard = .ok (bringingOn key) := rfl

theorem compact_bringing : (bringing key).compact = .ok (bringingOn key).stripped := rfl

theorem compact_bringingOn : (bringingOn key).compact = .ok (bringingOn key).stripped := rfl

end Bringing

/-- Conversion is safe to store exactly where no sequencing slot brings along a member that its other form has a field
for. -/
theorem ofText_converted {text : String} {doc : Document} (read : codec.ofText text = .ok doc) (r : Registry) :
    (∀ runtime, doc.expand r = .ok runtime → runtime.FloatsReadBack →
      (codec.ofText runtime.render = .ok runtime ↔ doc.CarriesToSlots)) ∧
    ∀ stored, doc.compact = .ok stored → stored.FloatsReadBack →
      (codec.ofText stored.render = .ok stored ↔ doc.CarriesToStored) := by
  have clean := clean_of_ofText read
  constructor
  · intro runtime done floats
    exact (ofText_render_iff floats).trans (clean_expand clean done)
  · intro stored done floats
    exact (ofText_render_iff floats).trans (clean_compact clean done)

theorem ofText_converted_color :
    codec.ofText (bringing "color").render = .ok (bringing "color") ∧
      ((bringing "color").expand .standard = .ok (bringingOn "color") ∧
        codec.ofText (bringingOn "color").render = .ok (bringingOn "color")) ∧
      (bringing "color").compact = .ok (bringingOn "color").stripped ∧
        codec.ofText (bringingOn "color").stripped.render = .ok (bringingOn "color").stripped := by
  have clean : (bringing "color").Clean Source.nestingLimit := clean_bringing (by decide)
  have read := ofText_render clean (floatsReadBack_of_naturals numbers_bringing)
  obtain ⟨slots, stored⟩ := ofText_converted read .standard
  have carries : (bringing "color").CarriesToSlots :=
    List.forall_mem_singleton.2 ⟨List.forall_mem_singleton.2 ⟨by decide, by decide⟩, nofun⟩
  have carriesBack : (bringing "color").CarriesToStored := List.forall_mem_singleton.2 ⟨nofun, nofun⟩
  exact ⟨read,
    ⟨expand_bringing, (slots _ expand_bringing (floatsReadBack_of_naturals numbers_bringingOn)).2 carries⟩,
    compact_bringing,
    (stored _ compact_bringing (floatsReadBack_of_naturals numbers_stripped_bringingOn)).2 carriesBack⟩

/-- An ordinary input has a field `widget` and a stored one has `links`; each may be an unknown member of the other. -/
theorem ofText_converted_astray :
    (codec.ofText (bringing "widget").render = .ok (bringing "widget") ∧
      (bringing "widget").expand .standard = .ok (bringingOn "widget") ∧ (bringingOn "widget").FloatsReadBack ∧
      codec.ofText (bringingOn "widget").render ≠ .ok (bringingOn "widget")) ∧
    codec.ofText (bringingOn "links").render = .ok (bringingOn "links") ∧
      (bringingOn "links").compact = .ok (bringingOn "links").stripped ∧
      (bringingOn "links").stripped.FloatsReadBack ∧
      codec.ofText (bringingOn "links").stripped.render ≠ .ok (bringingOn "links").stripped := by
  have stored : (bringing "widget").Clean Source.nestingLimit := clean_bringing (by decide)
  have live : (bringingOn "links").Clean Source.nestingLimit := clean_bringingOn (by decide)
  refine ⟨⟨ofText_render stored (floatsReadBack_of_naturals numbers_bringing), expand_bringing,
    floatsReadBack_of_naturals numbers_bringingOn, fun again => ?_⟩,
    ofText_render live (floatsReadBack_of_naturals numbers_bringingOn), compact_bringingOn,
    floatsReadBack_of_naturals numbers_stripped_bringingOn, fun again => ?_⟩
  · have carries := (clean_expand stored expand_bringing).1 (clean_of_ofText again)
    have slot := (carries _ List.mem_cons_self).inputs _ List.mem_cons_self
    exact slot.2 List.mem_cons_self
  · have carries := (clean_compact live compact_bringingOn).1 (clean_of_ofText again)
    have slot := (carries _ List.mem_cons_self).inputs _ List.mem_cons_self rfl
    exact slot List.mem_cons_self

end Document
end Patchbay
