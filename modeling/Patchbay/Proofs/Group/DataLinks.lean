import Patchbay.Proofs.Group.Sketch
import Patchbay.Proofs.Sequencing.Sewing

/-!
The links of a group config once its sequencing is left out. Those stay that neither say that they are sequencing nor
hold a sequencing slot in front of a member's data slots, in their order, and both ends of each stay on the slots of
before, counted without what stood in front. A config that is data alone stays as it is.
-/
set_option autoImplicit false

namespace Patchbay

/-! ### What stands in front of a list of slots -/

section Slots

variable {α : Type} {p : α → Bool} {xs : List α} {i : Nat}

/-- Place `i` belongs to the entries with `p` that stand in front of all others. -/
def InFront (p : α → Bool) (xs : List α) (i : Nat) : Prop := ∀ j ≤ i, ∃ x ∈ xs[j]?, p x

theorem inFront_iff : InFront p xs i ↔ i < (xs.takeWhile p).length := by
  constructor
  · intro front
    by_contra beyond
    -- the entry right behind those that are taken has `p` too, which ends the run one place too early
    obtain ⟨x, found, hit⟩ := front _ (Nat.le_of_not_lt beyond)
    have first : (xs.dropWhile p).head? = some x := by
      rw [List.head?_eq_getElem?, ← drop_length_takeWhile, List.getElem?_drop]
      exact found
    have miss := List.head?_dropWhile_not p xs
    rw [first] at miss
    exact Bool.false_ne_true (miss.symm.trans hit)
  · intro inside j early
    exact getElem?_of_lt_takeWhile (Nat.lt_of_le_of_lt early inside)

/-- A slot by its number in a list and by its number in what is left without the `taken` slots in front: at both
numbers stands the same slot, but for what taking the others away changes of it, or at neither stands one. -/
structure SameSlot (p : α → Bool) (change : α → α) (slots left : List α) (taken before after : Nat) : Prop where
  taken_iff : ∀ i, i < taken ↔ InFront p slots i
  count : left.length + taken = slots.length
  number : after + taken = before
  slot : left[after]? = slots[before]?.map change
  outside : left.length ≤ after ↔ slots.length ≤ before

theorem sameSlot_drop (change : α → α) (behind : ¬ InFront p xs i) :
    SameSlot p change xs ((xs.drop (xs.takeWhile p).length).map change) (xs.takeWhile p).length i
      (i - (xs.takeWhile p).length) := by
  rw [inFront_iff, Nat.not_lt] at behind
  have bound := (List.takeWhile_sublist p (l := xs)).length_le
  have length : ((xs.drop (xs.takeWhile p).length).map change).length = xs.length - (xs.takeWhile p).length := by
    rw [List.length_map, List.length_drop]
  refine ⟨fun _ => inFront_iff.symm, ?_, Nat.sub_add_cancel behind, ?_, ?_⟩
  · rw [length, Nat.sub_add_cancel bound]
  · rw [List.getElem?_map, List.getElem?_drop, Nat.add_sub_cancel' behind]
  · rw [length]
    omega

theorem forall₂_filter_filterMap {β : Type} {q : α → Prop} [DecidablePred q] {f : α → Option β} {r : α → β → Prop}
    (kept : ∀ x, q x → ∃ y, f x = some y ∧ r x y) (dropped : ∀ x, ¬ q x → f x = none) (xs : List α) :
    List.Forall₂ r (xs.filter (q ·)) (xs.filterMap f) := by
  induction xs with
  | nil => exact .nil
  | cons x xs ih =>
    by_cases stays : q x
    · obtain ⟨y, made, related⟩ := kept x stays
      simp only [List.filter_cons, stays, decide_true, if_true, List.filterMap_cons_some made]
      exact .cons related ih
    · simp only [List.filter_cons, stays, decide_false, Bool.false_eq_true, if_false,
        List.filterMap_cons_none (dropped x stays)]
      exact ih

end Slots

/-! ### The links that stay -/

theorem GroupLink.isFlow_iff (link : GroupLink) : link.isFlow ↔ .text flowType ∈ link.tail := by
  have marks : ∀ value : Json, (value.text? == some flowType) = true ↔ value = .text flowType := by
    intro value
    cases value <;> simp [Json.text?]
  simp only [isFlow, List.any_eq_true, marks, exists_eq_right]

namespace GroupConfig

/-- The link does not say that it is sequencing, and neither end of it is one of the sequencing slots in front of a
member's data slots. -/
@[mk_iff]
structure Keeps (config : GroupConfig) (link : GroupLink) : Prop where
  unmarked : .text flowType ∉ link.tail
  originBehind : ∀ index ∈ link.origin, ∀ node ∈ config.nodes[index.toNat]?,
    ¬ InFront (·.isFlow) node.outputs link.originSlot.toNat
  targetBehind : ∀ node ∈ config.nodes[link.target.toNat]?, ¬ InFront (·.isFlow) node.inputs link.targetSlot.toNat

/-- How a link stays: between the ends of before, and on the same slots of the members among them. -/
structure Recounts (config : GroupConfig) (link kept : GroupLink) : Prop where
  origin : kept.origin = link.origin
  target : kept.target = link.target
  tail : kept.tail = link.tail
  output : ∀ index ∈ link.origin, ∀ node ∈ config.nodes[index.toNat]?,
    ∃ data ∈ config.withoutFlow.nodes[index.toNat]?,
      SameSlot (·.isFlow) (·.lowerIndex node.leadingFlowOutputs) node.outputs data.outputs node.leadingFlowOutputs
        link.originSlot.toNat kept.originSlot.toNat
  input : ∀ node ∈ config.nodes[link.target.toNat]?, ∃ data ∈ config.withoutFlow.nodes[link.target.toNat]?,
    SameSlot (·.isFlow) id node.inputs data.inputs node.leadingFlowInputs link.targetSlot.toNat kept.targetSlot.toNat
  noOrigin : (∀ index ∈ link.origin, config.nodes[index.toNat]? = none) → kept.originSlot = link.originSlot
  noTarget : config.nodes[link.target.toNat]? = none → kept.targetSlot = link.targetSlot

variable {config : GroupConfig} {link : GroupLink}

theorem leadingOutputs_le_iff (config : GroupConfig) (index : Word) (slot : Nat) :
    (config.leadingFlow index).2 ≤ slot ↔
      ∀ node ∈ config.nodes[index.toNat]?, ¬ InFront (·.isFlow) node.outputs slot := by
  rw [leadingFlow]
  cases config.nodes[index.toNat]? with
  | none => simp
  | some node => simp [inFront_iff, Node.leadingFlowOutputs]

theorem leadingInputs_le_iff (config : GroupConfig) (index : Word) (slot : Nat) :
    (config.leadingFlow index).1 ≤ slot ↔
      ∀ node ∈ config.nodes[index.toNat]?, ¬ InFront (·.isFlow) node.inputs slot := by
  rw [leadingFlow]
  cases config.nodes[index.toNat]? with
  | none => simp
  | some node => simp [inFront_iff, Node.leadingFlowInputs]

theorem keeps_iff_le : config.Keeps link ↔ link.isFlow = false ∧
    link.outputsAhead config.leadingFlow ≤ link.originSlot.toNat ∧
      (config.leadingFlow link.target).1 ≤ link.targetSlot.toNat := by
  have leaves : link.outputsAhead config.leadingFlow ≤ link.originSlot.toNat ↔
      ∀ index ∈ link.origin, ∀ node ∈ config.nodes[index.toNat]?,
        ¬ InFront (·.isFlow) node.outputs link.originSlot.toNat := by
    rw [GroupLink.outputsAhead]
    cases link.origin with
    | none => simp
    | some index => simp [leadingOutputs_le_iff]
  rw [keeps_iff, ← link.isFlow_iff, Bool.not_eq_true, leaves, leadingInputs_le_iff]

instance (config : GroupConfig) : DecidablePred config.Keeps := fun _ => decidable_of_iff _ keeps_iff_le.symm

theorem Keeps.recounts (stays : config.Keeps link) :
    config.Recounts link { link with
      originSlot := link.originSlot.lower (link.outputsAhead config.leadingFlow)
      targetSlot := link.targetSlot.lower (config.leadingFlow link.target).1 } where
  origin := rfl
  target := rfl
  tail := rfl
  output := by
    intro index leaves node found
    have ahead : link.outputsAhead config.leadingFlow = node.leadingFlowOutputs := by
      rw [GroupLink.outputsAhead, Option.mem_def.1 leaves, Option.elim_some, leadingFlow, Option.mem_def.1 found]
    refine ⟨node.withoutLeadingFlow, ?_, ?_⟩
    · rw [getElem?_withoutFlow, Option.mem_def.1 found]
      rfl
    · rw [Word.toNat_lower, ahead]
      exact sameSlot_drop _ (stays.originBehind index leaves node found)
  input := by
    intro node found
    have ahead : (config.leadingFlow link.target).1 = node.leadingFlowInputs := by
      rw [leadingFlow, Option.mem_def.1 found]
    have left : node.withoutLeadingFlow.inputs = (node.inputs.drop node.leadingFlowInputs).map id :=
      (List.map_id _).symm
    refine ⟨node.withoutLeadingFlow, ?_, ?_⟩
    · rw [getElem?_withoutFlow, Option.mem_def.1 found]
      rfl
    · rw [Word.toNat_lower, ahead, left]
      exact sameSlot_drop id (stays.targetBehind node found)
  noOrigin := by
    intro nowhere
    have ahead : link.outputsAhead config.leadingFlow = 0 := by
      rw [GroupLink.outputsAhead]
      cases leaves : link.origin with
      | none => rfl
      | some index => rw [Option.elim_some, leadingFlow, nowhere index leaves]
    rw [ahead, Word.lower_zero]
  noTarget := by
    intro nowhere
    rw [leadingFlow, nowhere, Word.lower_zero]

theorem forall₂_links_withoutFlow :
    List.Forall₂ config.Recounts (config.links.filter (config.Keeps ·)) config.withoutFlow.links := by
  have links : config.withoutFlow.links = config.links.filterMap fun link =>
      if !link.isFlow then link.withoutFlow? config.leadingFlow else none := List.filterMap_filter
  rw [links]
  refine forall₂_filter_filterMap (fun link stays => ?_) (fun link goes => ?_) config.links
  · obtain ⟨unmarked, behind⟩ := keeps_iff_le.1 stays
    refine ⟨_, ?_, stays.recounts⟩
    rw [unmarked, GroupLink.withoutFlow?_eq, if_pos behind]
    rfl
  · cases marked : link.isFlow with
    | true => rfl
    | false =>
      rw [GroupLink.withoutFlow?_eq, if_neg fun behind => goes (keeps_iff_le.2 ⟨marked, behind⟩)]
      rfl

end GroupConfig

/-! ### Configs that are data alone -/

namespace Node

/-- No sequencing slot stands in front of the data slots, and none is stored. -/
structure IsData (node : Node) : Prop where
  inputs : node.leadingFlowInputs = 0
  outputs : node.leadingFlowOutputs = 0
  flowInputs : node.flowInputs = none
  flowOutputs : node.flowOutputs = none

theorem isData_withoutLeadingFlow (node : Node) : node.withoutLeadingFlow.IsData where
  inputs := by
    have left : node.withoutLeadingFlow.inputs = node.inputs.dropWhile (·.isFlow) := drop_leadingFlowInputs node
    rw [leadingFlowInputs, left, takeWhile_dropWhile]
    rfl
  outputs := by
    have left : node.withoutLeadingFlow.outputs =
        (node.outputs.dropWhile (·.isFlow)).map (·.lowerIndex node.leadingFlowOutputs) := by
      rw [← drop_leadingFlowOutputs]
      rfl
    rw [leadingFlowOutputs, left, List.takeWhile_map, List.length_map]
    exact congrArg List.length (takeWhile_dropWhile _ node.outputs)
  flowInputs := rfl
  flowOutputs := rfl

theorem IsData.withoutLeadingFlow_eq {node : Node} (data : node.IsData) : node.withoutLeadingFlow = node := by
  have outputs : node.outputs.map (fun slot => { slot with index := slot.index.map (·.lower 0) }) = node.outputs := by
    simp [Word.lower_zero]
  rw [withoutLeadingFlow, data.inputs, data.outputs, List.drop_zero, List.drop_zero, outputs, ← data.flowInputs]
  simp [← data.flowOutputs]

end Node

namespace GroupConfig

variable {config : GroupConfig}

theorem withoutFlow_eq_self (members : ∀ node ∈ config.nodes, node.IsData)
    (unmarked : ∀ link ∈ config.links, link.isFlow = false) : config.withoutFlow = config := by
  have nodes : config.nodes.map (·.withoutLeadingFlow) = config.nodes :=
    (List.map_congr_left fun node member => (members node member).withoutLeadingFlow_eq).trans (List.map_id _)
  have links : config.withoutFlow.links = config.links :=
    links_withoutFlow_eq_self (fun node member => ⟨(members node member).inputs, (members node member).outputs⟩) unmarked
  calc config.withoutFlow
      = { config with nodes := config.nodes.map (·.withoutLeadingFlow), links := config.withoutFlow.links } := rfl
    _ = config := by rw [nodes, links]

theorem isFlow_of_mem_withoutFlow {kept : GroupLink} (inside : kept ∈ config.withoutFlow.links) :
    kept.isFlow = false := by
  obtain ⟨link, listed, made⟩ := List.mem_filterMap.1 inside
  rw [GroupLink.withoutFlow?_eq] at made
  obtain ⟨_, same⟩ := Option.ite_none_right_eq_some.1 made
  cases same
  simpa [GroupLink.isFlow] using (List.mem_filter.1 listed).2

theorem withoutFlow_withoutFlow : config.withoutFlow.withoutFlow = config.withoutFlow := by
  refine withoutFlow_eq_self (fun data inside => ?_) fun kept => isFlow_of_mem_withoutFlow
  obtain ⟨node, _, rfl⟩ := List.mem_map.1 inside
  exact node.isData_withoutLeadingFlow

/-- Leaving the sequencing out twice is leaving it out once. The links that stay are exactly those that neither say that
they are sequencing nor hold a sequencing slot in front of a member's data slots, in their order, and both ends of each
stay on the slots of before. -/
theorem withoutFlow_keeps_slots (config : GroupConfig) :
    config.withoutFlow.withoutFlow = config.withoutFlow ∧
      List.Forall₂ config.Recounts (config.links.filter (config.Keeps ·)) config.withoutFlow.links :=
  ⟨withoutFlow_withoutFlow, forall₂_links_withoutFlow⟩

-- Gone are the marked link and the one that leads to a sequencing slot. The others come from a member, from outside the
-- group and from a position that no member has; the second leads behind the last slot, before and after.
example :
    let load := ((Node.plain (.number 1) "Load").addOutput "TO" flowType).addOutput "IMAGE" "IMAGE"
    let blur := ((Node.plain (.number 2) "Blur").addInput "FROM" flowType).addInput "image" "IMAGE"
    let config : GroupConfig := ⟨[load, blur], [⟨some 0, 0, 1, 0, [.text flowType]⟩, ⟨some 0, 1, 1, 0, []⟩,
      ⟨some 0, 1, 1, 1, []⟩, ⟨none, 0, 1, 2, []⟩, ⟨some 7, 0, 1, 1, []⟩], []⟩
    config.withoutFlow.links = [⟨some 0, 0, 1, 0, []⟩, ⟨none, 0, 1, 1, []⟩, ⟨some 7, 0, 1, 0, []⟩] := by
  decide

end GroupConfig

end Patchbay
