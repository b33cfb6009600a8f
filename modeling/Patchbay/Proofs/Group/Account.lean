import Patchbay.Proofs.Group.Exposure
import Patchbay.Proofs.Group.MemberIds
import Patchbay.Proofs.Stored.Values

/-!
A group exposes the free slots of its members and nothing else: each once, in the order of the members and of
their slots. Its declared inputs are those slots and the widgets of the members, under names that tell the member.
-/
set_option autoImplicit false

namespace Patchbay

theorem Fields.putAll_of_distinct (more done : Fields) (distinct : ((done ++ more).map Prod.fst).Nodup) :
    putAll done more = done ++ more := by
  induction more generalizing done with
  | nil => exact (List.append_nil done).symm
  | cons entry rest ih =>
    have next : putAll done (entry :: rest) = putAll (put entry.1 entry.2 done) rest := rfl
    rw [next, put_of_absent (absent_of_distinct distinct)]
    rw [List.append_cons] at distinct
    exact (ih (done ++ [entry]) distinct).trans (List.append_cons done entry rest).symm

/-- What a group declares for an input of a member. -/
def Operation.exposedSpec (op : Operation) (input : InputDef) : Json :=
  let declared := (op.spec? input.name).getD .null
  if InputDef.isSeedName input.name then seedSpec declared else declared

def MemberSlot.Before (a b : MemberSlot) : Prop := a.member < b.member ∨ a.member = b.member ∧ a.slot < b.slot

/-- The input of the group that stands for a member slot. -/
def Exposure.inputIndex? (e : Exposure) (inner : MemberSlot) : Option Nat := e.inputs.idxOf? inner

namespace GroupConfig

/-- The operation that the member at a position acts as. -/
def operationAt? (config : GroupConfig) (r : Registry) (lookup : String → Option Operation) (member : Nat) :
    Option Operation :=
  config.nodes[member]?.bind (config.memberOperation? r lookup member)

section Free

variable (config : GroupConfig) (r : Registry) (lookup : String → Option Operation)

/-- The member's operation has this link slot, and no link between members goes to it. -/
def FreeInput (inner : MemberSlot) : Prop :=
  (∃ op, config.operationAt? r lookup inner.member = some op ∧ inner.slot < r.linkCount op.inputs) ∧
    ∀ link ∈ config.links, link.origin.isSome →
      ¬ (link.target.toNat = inner.member ∧ link.targetSlot.toNat = inner.slot)

def FreeOutput (inner : MemberSlot) : Prop :=
  (∃ op, config.operationAt? r lookup inner.member = some op ∧ inner.slot < op.outputs.length) ∧
    ∀ link ∈ config.links, ∀ origin, link.origin = some origin →
      ¬ (origin.toNat = inner.member ∧ link.originSlot.toNat = inner.slot)

/-- No operation of a member declares two inputs of one name. -/
def InputsDistinct : Prop :=
  ∀ member op, config.operationAt? r lookup member = some op → (op.inputs.map (·.name)).Nodup

/-- The declared inputs of a member that show outside: its widgets, and those whose link slot is not fed. -/
def shownInputs (member : Nat) (op : Operation) : List InputDef :=
  (op.inputs.zipIdx.filter fun (input, place) =>
    r.isWidget input || !config.feeds member (r.linkCount (op.inputs.take place))).map Prod.fst

theorem feeds_eq_false_iff (member slot : Nat) : config.feeds member slot = false ↔
    ∀ link ∈ config.links, link.origin.isSome → ¬ (link.target.toNat = member ∧ link.targetSlot.toNat = slot) := by
  rw [feeds, List.any_eq_false]
  simp only [linksTo, innerLinks, List.mem_filter, beq_iff_eq, and_imp, not_and]

theorem takes_eq_false_iff (member slot : Nat) : config.takes member slot = false ↔
    ∀ link ∈ config.links, ∀ origin, link.origin = some origin →
      ¬ (origin.toNat = member ∧ link.originSlot.toNat = slot) := by
  rw [takes, List.any_eq_false]
  simp only [linksFrom, innerLinks, List.mem_filter, beq_iff_eq, and_imp, not_and]
  constructor
  · intro untaken link inside origin leaves same
    exact untaken link inside (by rw [leaves]; rfl) (by simp [leaves, same])
  · intro untaken link inside _ from_
    obtain ⟨origin, leaves, same⟩ := (Option.any_eq_true _ _).1 from_
    exact untaken link inside origin leaves (by simpa using same)

theorem mem_memberOperations_iff (member : Nat) (op : Operation) :
    (member, op) ∈ config.memberOperations r lookup ↔ config.operationAt? r lookup member = some op := by
  simp only [memberOperations, operationAt?, List.mem_filterMap, Prod.exists, List.mk_mem_zipIdx_iff_getElem?,
    Option.map_eq_some_iff, Option.bind_eq_some_iff, Prod.mk.injEq]
  constructor
  · rintro ⟨node, _, there, _, found, rfl, rfl⟩
    exact ⟨node, there, found⟩
  · rintro ⟨node, there, found⟩
    exact ⟨node, member, there, op, found, rfl, rfl⟩

end Free

end GroupConfig

/-! ### The slots of one member -/

namespace ExposedInput

variable (config : GroupConfig) (r : Registry) (op : Operation) (member : Nat)

theorem ofInputs_eq (inputs : List InputDef) (start : Nat) : ofInputs config r op member start inputs =
    inputs.zipIdx.filterMap fun (input, place) =>
      if r.isWidget input then some ⟨member, input, none, op.exposedSpec input⟩
      else if config.feeds member (start + r.linkCount (inputs.take place)) then none
      else some ⟨member, input, some (start + r.linkCount (inputs.take place)), op.exposedSpec input⟩ := by
  induction inputs generalizing start with
  | nil => rfl
  | cons input rest ih =>
    rw [ofInputs, List.zipIdx_cons, List.zipIdx_succ, List.filterMap_cons, List.filterMap_map]
    by_cases widget : r.isWidget input
    · have same : ∀ place, r.linkCount ((input :: rest).take (place + 1)) = r.linkCount (rest.take place) := by
        intro place
        simp [Registry.linkCount, widget]
      simp only [widget, if_true, ih, Function.comp_def, same]
      rfl
    · have next : ∀ place, r.linkCount ((input :: rest).take (place + 1)) = r.linkCount (rest.take place) + 1 := by
        intro place
        simp [Registry.linkCount, widget]
      have later : ∀ place, start + r.linkCount ((input :: rest).take (place + 1)) =
          start + 1 + r.linkCount (rest.take place) := by
        intro place
        rw [next]
        omega
      have first : start + r.linkCount ((input :: rest).take 0) = start := rfl
      simp only [widget, if_false, ih, Function.comp_def, later, first, Bool.false_eq_true]
      split <;> rfl

theorem entries_ofInputs : (ofInputs config r op member 0 op.inputs).map (fun e => (e.name, e.spec)) =
    (config.shownInputs r member op).map fun input => (exposedName member input.name, op.exposedSpec input) := by
  rw [ofInputs_eq, GroupConfig.shownInputs, List.map_map, List.map_filterMap, ← List.filterMap_eq_filter,
    List.map_filterMap]
  apply List.filterMap_congr
  rintro ⟨input, place⟩ _
  simp only [Nat.zero_add]
  by_cases widget : r.isWidget input
  · simp [widget, Option.guard, name]
  · by_cases fed : config.feeds member (r.linkCount (op.inputs.take place)) <;> simp [widget, fed, Option.guard, name]

theorem exposedName_injective {a b : Nat} {first second : String}
    (same : exposedName a first = exposedName b second) : a = b ∧ first = second := by
  have lists := congrArg String.toList same
  simp only [exposedName, String.toList_append] at lists
  change (Nat.repr a).toList ++ [':'] ++ first.toList = (Nat.repr b).toList ++ [':'] ++ second.toList at lists
  rw [List.append_assoc, List.append_assoc, Nat.toList_repr, Nat.toList_repr] at lists
  -- Both names end their digits at the first colon.
  have digits : ∀ n (rest : List Char),
      (Nat.toDigits 10 n ++ ([':'] ++ rest)).takeWhile (· != ':') = Nat.toDigits 10 n := by
    intro n rest
    rw [List.takeWhile_append_of_pos]
    · simp
    · intro c inside
      have other : c ≠ ':' := fun colon => NodeId.colon_notMem_digits n (colon ▸ inside)
      simpa using other
  have numbers := congrArg (List.takeWhile (· != ':')) lists
  rw [digits, digits] at numbers
  rw [numbers] at lists
  have rests := List.append_cancel_left (List.append_cancel_left lists)
  rw [← Nat.toList_repr, ← Nat.toList_repr, String.toList_inj] at numbers
  exact ⟨Nat.repr_injective numbers, String.toList_inj.1 rests⟩

end ExposedInput

/-! ### The description as a whole -/

namespace GroupDef

section Build

variable (config : GroupConfig) (name : String) (r : Registry) (lookup : String → Option Operation)

theorem outputs_build : (build config name r lookup).exposure.outputs =
    (config.withoutFlow.memberOperations r lookup).flatMap fun entry =>
      (ExposedOutput.ofOutputs config.withoutFlow entry.2 entry.1).map (·.source) :=
  List.map_flatMap

theorem mem_inputs_build (inner : MemberSlot) :
    inner ∈ (build config name r lookup).exposure.inputs ↔ config.withoutFlow.FreeInput r lookup inner := by
  rw [inputs_build, List.mem_flatMap, GroupConfig.FreeInput, ← GroupConfig.feeds_eq_false_iff]
  simp only [ExposedInput.mem_memberSlots_iff, Prod.exists, GroupConfig.mem_memberOperations_iff, Nat.zero_le,
    true_and, Nat.zero_add]
  constructor
  · rintro ⟨_, op, acts, rfl, below, unfed⟩
    exact ⟨⟨op, acts, below⟩, unfed⟩
  · rintro ⟨⟨op, acts, below⟩, unfed⟩
    exact ⟨_, op, acts, rfl, below, unfed⟩

theorem mem_ofOutputs_iff (op : Operation) (member : Nat) (inner : MemberSlot) :
    inner ∈ (ExposedOutput.ofOutputs config op member).map (·.source) ↔
      inner.member = member ∧ inner.slot < op.outputs.length ∧ config.takes member inner.slot = false := by
  obtain ⟨place, slot⟩ := inner
  simp only [ExposedOutput.ofOutputs, List.map_map, List.mem_map, List.mem_filter, Prod.exists, Function.comp,
    List.mk_mem_zipIdx_iff_getElem?, MemberSlot.mk.injEq, Bool.not_eq_true']
  constructor
  · rintro ⟨type, _, ⟨there, untaken⟩, rfl, rfl⟩
    exact ⟨rfl, (List.getElem?_eq_some_iff.1 there).1, untaken⟩
  · rintro ⟨rfl, below, untaken⟩
    exact ⟨_, slot, ⟨List.getElem?_eq_getElem below, untaken⟩, rfl, rfl⟩

theorem mem_outputs_build (inner : MemberSlot) :
    inner ∈ (build config name r lookup).exposure.outputs ↔ config.withoutFlow.FreeOutput r lookup inner := by
  rw [outputs_build, List.mem_flatMap, GroupConfig.FreeOutput, ← GroupConfig.takes_eq_false_iff]
  simp only [mem_ofOutputs_iff, Prod.exists, GroupConfig.mem_memberOperations_iff]
  constructor
  · rintro ⟨_, op, acts, rfl, below, untaken⟩
    exact ⟨⟨op, acts, below⟩, untaken⟩
  · rintro ⟨⟨op, acts, below⟩, untaken⟩
    exact ⟨_, op, acts, rfl, below, untaken⟩

-- Slots of one member come in the order of their numbers, and members in the order of their positions.
theorem ascending_flatMap {members : List (Nat × Operation)} (ascending : members.Pairwise fun a b => a.1 < b.1)
    {slots : Nat × Operation → List MemberSlot} (own : ∀ entry, ∀ inner ∈ slots entry, inner.member = entry.1)
    (each : ∀ entry, (slots entry).Pairwise fun a b => a.slot < b.slot) :
    (members.flatMap slots).Pairwise MemberSlot.Before := by
  refine List.pairwise_flatMap.2 ⟨fun entry _ => ?_, ascending.imp fun {a b} less x insideX y insideY => ?_⟩
  · refine List.Pairwise.imp_of_mem ?_ (each entry)
    intro a b insideA insideB less
    exact .inr ⟨(own entry a insideA).trans (own entry b insideB).symm, less⟩
  · left
    rw [own a x insideX, own b y insideY]
    exact less

theorem inputs_ascending : (build config name r lookup).exposure.inputs.Pairwise MemberSlot.Before := by
  rw [inputs_build]
  refine ascending_flatMap (config.withoutFlow.memberOperations_ascending r lookup) (fun entry inner inside => ?_)
    fun entry => ExposedInput.memberSlots_ascending ..
  exact ((ExposedInput.mem_memberSlots_iff ..).1 inside).1

theorem outputs_ascending : (build config name r lookup).exposure.outputs.Pairwise MemberSlot.Before := by
  rw [outputs_build]
  refine ascending_flatMap (config.withoutFlow.memberOperations_ascending r lookup) (fun entry inner inside => ?_)
    fun entry => ?_
  · exact ((mem_ofOutputs_iff ..).1 inside).1
  · rw [ExposedOutput.ofOutputs, List.map_map, List.pairwise_map]
    exact (zipIdx_ascending entry.2.outputs).filter _

theorem described_build (index : Nat) (inner : MemberSlot)
    (shown : (build config name r lookup).exposure.outputs[index]? = some inner) :
    ∃ op type, config.withoutFlow.operationAt? r lookup inner.member = some op ∧ op.outputs[inner.slot]? = some type ∧
      (build config name r lookup).operation.outputs[index]? = some type ∧
      (build config name r lookup).operation.outputNames[index]? =
        some (ExposedInput.exposedName inner.member ((op.outputLabel? inner.slot).getD "")) ∧
      (build config name r lookup).operation.outputIsList[index]? = some (op.outputIsList[inner.slot]?.getD false) := by
  simp only [build, List.getElem?_map, Option.map_eq_some_iff] at shown
  obtain ⟨output, there, rfl⟩ := shown
  obtain ⟨⟨member, op⟩, acts, inside⟩ := List.mem_flatMap.1 (List.mem_of_getElem? there)
  obtain ⟨⟨type, slot⟩, listed, rfl⟩ := List.mem_map.1 inside
  have typed := List.mk_mem_zipIdx_iff_getElem?.1 (List.mem_filter.1 listed).1
  refine ⟨op, type, (GroupConfig.mem_memberOperations_iff ..).1 acts, typed, ?_⟩
  simp only [build, List.getElem?_map, there, Option.map_some, ExposedInput.exposedName, true_and]

theorem shownNames_distinct (distinct : config.InputsDistinct r lookup) :
    (((config.memberOperations r lookup).flatMap fun (member, op) =>
      (config.shownInputs r member op).map fun input =>
        (ExposedInput.exposedName member input.name, op.exposedSpec input)).map Prod.fst).Nodup := by
  rw [List.map_flatMap, List.nodup_flatMap]
  constructor
  · rintro ⟨member, op⟩ acts
    have names := distinct member op ((GroupConfig.mem_memberOperations_iff ..).1 acts)
    have kept : (config.shownInputs r member op).Sublist op.inputs := by
      have all := (List.filter_sublist (l := op.inputs.zipIdx) (p := fun entry => r.isWidget entry.1 ||
        !config.feeds member (r.linkCount (op.inputs.take entry.2)))).map Prod.fst
      rw [List.zipIdx_map_fst] at all
      exact all
    have own := names.sublist (kept.map InputDef.name)
    have exposed := own.map fun first second (same : ExposedInput.exposedName member first = _) =>
      (ExposedInput.exposedName_injective same).2
    rw [List.map_map] at exposed ⊢
    exact exposed
  · refine (config.memberOperations_ascending r lookup).imp fun {a b} less shown insideA insideB => ?_
    simp only [List.map_map, List.mem_map, Function.comp] at insideA insideB
    obtain ⟨_, _, rfl⟩ := insideA
    obtain ⟨_, _, same⟩ := insideB
    exact absurd (ExposedInput.exposedName_injective same).1 (Nat.ne_of_gt less)

theorem required_build (distinct : config.withoutFlow.InputsDistinct r lookup) :
    (build config name r lookup).operation.input.required =
      (config.withoutFlow.memberOperations r lookup).flatMap fun (member, op) =>
        (config.withoutFlow.shownInputs r member op).map fun input =>
          (ExposedInput.exposedName member input.name, op.exposedSpec input) := by
  have entries : (build config name r lookup).operation.input.required = Fields.putAll []
      ((config.withoutFlow.memberOperations r lookup).flatMap fun (member, op) =>
        (config.withoutFlow.shownInputs r member op).map fun input =>
          (ExposedInput.exposedName member input.name, op.exposedSpec input)) := by
    simp only [build, List.map_flatMap, ExposedInput.entries_ofInputs]
  rw [entries]
  exact Fields.putAll_of_distinct _ [] (shownNames_distinct _ r lookup distinct)

end Build

/-- The group exposes the free slots of the members of a config, each once and in order. -/
structure Accounts (group : GroupDef) (config : GroupConfig) (r : Registry) (lookup : String → Option Operation) :
    Prop where
  inputs : ∀ inner, (group.exposure.inputIndex? inner).isSome ↔ config.FreeInput r lookup inner
  inputsNumbered : ∀ index, index < group.exposure.inputs.length ↔
    ∃ inner, group.exposure.inputIndex? inner = some index
  inputsAscending : ∀ (a b : MemberSlot) (i j : Nat),
    group.exposure.inputIndex? a = some i → group.exposure.inputIndex? b = some j → (a.Before b ↔ i < j)
  inputTarget : ∀ index inner, group.exposure.inputTarget? index = some inner ↔
    group.exposure.inputIndex? inner = some index
  outputs : ∀ inner, config.FreeOutput r lookup inner ↔ ∃ index : Nat, group.exposure.outputs[index]? = some inner
  outputsAscending : ∀ (a b : MemberSlot) (i j : Nat),
    group.exposure.outputs[i]? = some a → group.exposure.outputs[j]? = some b →
    (a.Before b ↔ i < j)
  outputsCounted : group.operation.outputs.length = group.exposure.outputs.length ∧
    group.operation.outputNames.length = group.exposure.outputs.length ∧
    group.operation.outputIsList.length = group.exposure.outputs.length
  outputsDescribed : ∀ (index : Nat) (inner : MemberSlot), group.exposure.outputs[index]? = some inner →
    ∃ op type, config.operationAt? r lookup inner.member = some op ∧ op.outputs[inner.slot]? = some type ∧
      group.operation.outputs[index]? = some type ∧
      group.operation.outputNames[index]? =
        some (ExposedInput.exposedName inner.member ((op.outputLabel? inner.slot).getD "")) ∧
      group.operation.outputIsList[index]? = some (op.outputIsList[inner.slot]?.getD false)
  required : config.InputsDistinct r lookup →
    (group.operation.input.required.map Prod.fst).Nodup ∧
    group.operation.input.required = (config.memberOperations r lookup).flatMap fun (member, op) =>
      (config.shownInputs r member op).map fun input =>
        (ExposedInput.exposedName member input.name, op.exposedSpec input)

end GroupDef

theorem MemberSlot.before_iff_lt {slots : List MemberSlot} (ascending : slots.Pairwise MemberSlot.Before)
    {a b : MemberSlot} {i j : Nat} (first : slots[i]? = some a) (second : slots[j]? = some b) :
    a.Before b ↔ i < j := by
  obtain ⟨boundI, rfl⟩ := List.getElem?_eq_some_iff.1 first
  obtain ⟨boundJ, rfl⟩ := List.getElem?_eq_some_iff.1 second
  have ordered := List.pairwise_iff_getElem.1 ascending
  refine ⟨fun before => ?_, ordered i j boundI boundJ⟩
  rcases Nat.lt_trichotomy i j with less | rfl | more
  · exact less
  · rcases before with member | ⟨_, slot⟩ <;> omega
  · have behind := ordered j i boundJ boundI more
    unfold Before at before behind
    omega

theorem Exposure.inputIndex?_eq_some_iff {e : Exposure} (ascending : e.inputs.Pairwise MemberSlot.Before)
    (inner : MemberSlot) (index : Nat) : e.inputIndex? inner = some index ↔ e.inputs[index]? = some inner := by
  rw [inputIndex?, List.idxOf?_eq_some_iff]
  constructor
  · rintro ⟨bound, there, _⟩
    exact List.getElem?_eq_some_iff.2 ⟨bound, there⟩
  · intro there
    obtain ⟨bound, same⟩ := List.getElem?_eq_some_iff.1 there
    refine ⟨bound, same, fun j less earlier => ?_⟩
    have here := List.getElem?_eq_getElem (Nat.lt_trans less bound)
    have before := (MemberSlot.before_iff_lt ascending here there).2 less
    rw [earlier] at before
    unfold MemberSlot.Before at before
    omega

/-- The slots of a described group are an exact account of what its members leave free. -/
theorem Definitions.describe_accounts (defs : Definitions) (name : String) (config : GroupConfig) :
    (defs.describe name config).Accounts config.withoutFlow defs.registry defs.operation? := by
  have ascending := GroupDef.inputs_ascending config name defs.registry defs.operation?
  have index_iff := Exposure.inputIndex?_eq_some_iff ascending
  rw [describe]
  constructor
  · intro inner
    rw [Exposure.inputIndex?, List.isSome_idxOf?, GroupDef.mem_inputs_build]
  · intro index
    simp only [index_iff]
    constructor
    · exact fun bound => ⟨_, List.getElem?_eq_getElem bound⟩
    · rintro ⟨inner, there⟩
      exact (List.getElem?_eq_some_iff.1 there).1
  · intro a b i j first second
    exact MemberSlot.before_iff_lt ascending ((index_iff a i).1 first) ((index_iff b j).1 second)
  · intro index inner
    rw [index_iff]
    rfl
  · intro inner
    rw [← GroupDef.mem_outputs_build config name, List.mem_iff_getElem?]
  · intro a b i j
    exact MemberSlot.before_iff_lt (GroupDef.outputs_ascending config name defs.registry defs.operation?)
  · simp only [GroupDef.build, List.length_map, and_self]
  · exact GroupDef.described_build config name defs.registry defs.operation?
  · intro distinct
    have entries := GroupDef.required_build config name defs.registry defs.operation? distinct
    refine ⟨?_, entries⟩
    rw [entries]
    exact GroupDef.shownNames_distinct _ _ _ distinct

def polishRegistry : Registry :=
  let blur := ((Operation.named "Blur").addRequired "image" (.text "IMAGE")).addRequired "radius" (.text "INT")
  let sharpen := ((Operation.named "Sharpen").addRequired "amount" (.text "FLOAT")).addRequired "image" (.text "IMAGE")
  (Registry.standard.insert (blur.addOutput "IMAGE" "")).insert (sharpen.addOutput "IMAGE" "sharpened")

/-- A reroute on the boundary, and two operations behind it; the first one has a sequencing input. -/
def polishConfig : GroupConfig where
  nodes := [((Node.plain (.number 5) "Reroute").addInput "" "*").addOutput "" "*",
    (((Node.plain (.number 6) "Blur").addInput "FROM" flowType).addInput "image" "IMAGE").addOutput "IMAGE" "IMAGE",
    ((Node.plain (.number 7) "Sharpen").addInput "image" "IMAGE").addOutput "sharpened" "IMAGE"]
  links := [⟨some 0, 0, 1, 1, []⟩, ⟨some 1, 0, 2, 0, []⟩]
  extra := []

theorem Definitions.describe_accounts_polish :
    let defs := ofRegistry polishRegistry
    polishConfig.withoutFlow.InputsDistinct polishRegistry defs.operation? ∧
      (defs.describe "polish" polishConfig).Accounts polishConfig.withoutFlow polishRegistry defs.operation? ∧
      (defs.describe "polish" polishConfig).exposure.inputIndex? ⟨0, 0⟩ = some 0 ∧
      (defs.describe "polish" polishConfig).exposure.outputs = [⟨2, 0⟩] ∧
      ((defs.describe "polish" polishConfig).operation.input.required.map Prod.fst).Nodup ∧
      (defs.describe "polish" polishConfig).operation.input.required.map Prod.fst =
        ["0:IMAGE", "1:radius", "2:amount"] := by
  intro defs
  have distinct : polishConfig.withoutFlow.InputsDistinct polishRegistry defs.operation? := by
    intro member op acts
    have each : ∀ entry ∈ polishConfig.withoutFlow.memberOperations polishRegistry defs.operation?,
        (entry.2.inputs.map (·.name)).Nodup := by decide +kernel
    exact each (member, op) ((GroupConfig.mem_memberOperations_iff ..).2 acts)
  have accounts := defs.describe_accounts "polish" polishConfig
  exact ⟨distinct, accounts, by decide +kernel, by decide +kernel, (accounts.required distinct).1, by decide +kernel⟩

end Patchbay
