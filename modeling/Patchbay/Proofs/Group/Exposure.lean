import Mathlib.Data.List.Sigma
import Patchbay.Group.Definitions

/-!
What the inputs of a described group stand for: each for a member slot of its own, and none for a slot
that a link inside the group feeds. A slot that is fed once is fed once without the sequencing slots as well.
-/
set_option autoImplicit false

namespace Patchbay

theorem zipIdx_ascending {α : Type} (xs : List α) : xs.zipIdx.Pairwise fun a b => a.2 < b.2 := by
  rw [← List.pairwise_map (f := Prod.snd), List.zipIdx_map_snd]
  exact List.pairwise_lt_range'

/-- At most one link inside the group goes to an input slot of a member. -/
def GroupConfig.FeedsOnce (config : GroupConfig) : Prop :=
  ∀ entry ∈ config.nodes.zipIdx, ∀ slot < entry.1.inputs.length,
    (config.linksTo entry.2).countP (·.targetSlot.toNat == slot) ≤ 1

instance (config : GroupConfig) : Decidable config.FeedsOnce := inferInstanceAs (Decidable (∀ _ ∈ _, _))

/-- How many sequencing slots lead the outputs of the member that the link leaves. -/
def GroupLink.outputsAhead (leading : Word → Nat × Nat) (link : GroupLink) : Nat :=
  link.origin.elim 0 fun origin => (leading origin).2

theorem GroupLink.withoutFlow?_eq (leading : Word → Nat × Nat) (link : GroupLink) :
    link.withoutFlow? leading =
      if link.outputsAhead leading ≤ link.originSlot.toNat ∧ (leading link.target).1 ≤ link.targetSlot.toNat then
        some { link with
          originSlot := link.originSlot.lower (link.outputsAhead leading)
          targetSlot := link.targetSlot.lower (leading link.target).1 }
      else none := by
  -- a link without an origin is counted like one whose origin has nothing ahead
  have lowered : link.withoutFlow? leading = (link.originSlot.lower? (link.outputsAhead leading)).bind fun originSlot =>
      (link.targetSlot.lower? (leading link.target).1).bind fun targetSlot =>
        some { link with originSlot := originSlot, targetSlot := targetSlot } := by
    rw [withoutFlow?, outputsAhead]
    cases link.origin with
    | none => rw [Option.elim_none, Word.lower?_zero]; rfl
    | some origin => rfl
  rw [lowered, Word.lower?, Word.lower?]
  by_cases leaves : link.outputsAhead leading ≤ link.originSlot.toNat <;>
    by_cases arrives : (leading link.target).1 ≤ link.targetSlot.toNat <;> simp [leaves, arrives]

theorem GroupLink.withoutFlow?_eq_some {leading : Word → Nat × Nat} {link kept : GroupLink}
    (stripped : link.withoutFlow? leading = some kept) : kept.origin = link.origin ∧ kept.target = link.target ∧
      link.targetSlot.toNat = kept.targetSlot.toNat + (leading link.target).1 := by
  rw [withoutFlow?_eq] at stripped
  obtain ⟨⟨_, arrives⟩, made⟩ := Option.ite_none_right_eq_some.1 stripped
  cases made
  refine ⟨rfl, rfl, ?_⟩
  rw [Word.toNat_lower, Nat.sub_add_cancel arrives]

theorem GroupLink.withoutFlow?_eq_self {leading : Word → Nat × Nat} (unled : ∀ index, leading index = (0, 0))
    (link : GroupLink) : link.withoutFlow? leading = some link := by
  have outputs : link.outputsAhead leading = 0 := by
    rw [outputsAhead]
    cases link.origin with
    | none => rfl
    | some origin => rw [Option.elim_some, unled]
  rw [withoutFlow?_eq, outputs, unled, if_pos ⟨Nat.zero_le _, Nat.zero_le _⟩, Word.lower_zero, Word.lower_zero]

theorem GroupConfig.getElem?_withoutFlow (config : GroupConfig) (index : Nat) :
    config.withoutFlow.nodes[index]? = config.nodes[index]?.map (·.withoutLeadingFlow) := List.getElem?_map ..

-- A link that stays when sequencing is left out comes from one that goes to the same slot, counted on.
theorem GroupConfig.FeedsOnce.withoutFlow {config : GroupConfig} (once : config.FeedsOnce) :
    config.withoutFlow.FeedsOnce := by
  intro entry inside slot bound
  have nodes : config.withoutFlow.nodes = config.nodes.map (·.withoutLeadingFlow) := rfl
  rw [nodes, List.zipIdx_map] at inside
  obtain ⟨⟨node, member⟩, listed, rfl⟩ := List.mem_map.1 inside
  change slot < (node.inputs.drop node.leadingFlowInputs).length at bound
  rw [List.length_drop] at bound
  refine Nat.le_trans ?_ (once (node, member) listed (slot + node.leadingFlowInputs) (by simp only; omega))
  have links : config.withoutFlow.links = (config.links.filter fun link => !link.isFlow).filterMap
      (·.withoutFlow? config.leadingFlow) := rfl
  simp only [linksTo, innerLinks, links, List.countP_filter, List.countP_filterMap, Prod.map, id]
  apply List.countP_mono_left
  intro link _ counted
  rw [Bool.and_eq_true] at counted
  cases stripped : link.withoutFlow? config.leadingFlow with
  | none =>
    rw [stripped] at counted
    cases counted.1
  | some kept =>
    obtain ⟨origin, target, targetSlot⟩ := GroupLink.withoutFlow?_eq_some stripped
    rw [stripped] at counted
    simp only [Option.map_some, Option.getD_some, Bool.and_eq_true, beq_iff_eq] at counted ⊢
    obtain ⟨⟨⟨slotSame, memberSame⟩, leaves⟩, _⟩ := counted
    rw [target] at memberSame
    have leading : (config.leadingFlow link.target).1 = node.leadingFlowInputs := by
      rw [leadingFlow, memberSame, List.mk_mem_zipIdx_iff_getElem?.1 listed]
    refine ⟨⟨?_, memberSame⟩, ?_⟩
    · rw [targetSlot, slotSame, leading]
    · rw [← origin]
      exact leaves

/-- How many link slots the inputs take; widgets take none. -/
def Registry.linkCount (r : Registry) (inputs : List InputDef) : Nat := inputs.countP fun input => !r.isWidget input

namespace ExposedInput

-- The link slots of one member are counted up, and the fed ones are passed over.
theorem mem_memberSlots_iff (config : GroupConfig) (r : Registry) (op : Operation) (member : Nat)
    (inputs : List InputDef) (start : Nat) (inner : MemberSlot) :
    inner ∈ (ofInputs config r op member start inputs).filterMap (·.memberSlot?) ↔
      inner.member = member ∧ (start ≤ inner.slot ∧ inner.slot < start + r.linkCount inputs) ∧
        config.feeds member inner.slot = false := by
  obtain ⟨place, slot⟩ := inner
  induction inputs generalizing start with
  | nil =>
    simp only [ofInputs, Registry.linkCount, List.filterMap_nil, List.not_mem_nil, List.countP_nil, false_iff]
    omega
  | cons input rest ih =>
    have count : r.linkCount (input :: rest) = r.linkCount rest + if r.isWidget input then 0 else 1 := by
      by_cases widget : r.isWidget input <;> simp [Registry.linkCount, widget]
    rw [ofInputs, count]
    by_cases widget : r.isWidget input
    · simp only [widget, if_true]
      rw [List.filterMap_cons_none rfl, ih, Nat.add_zero]
    · by_cases fed : config.feeds member start
      · simp only [widget, fed, if_true, if_false, Bool.false_eq_true, ih]
        -- The slot that is passed over is fed.
        refine and_congr_right fun _ => and_congr_left fun unfed => ?_
        have other : slot ≠ start := by
          rintro rfl
          rw [fed] at unfed
          cases unfed
        omega
      · simp only [widget, fed, if_false, Bool.false_eq_true]
        have shown : ∀ spec later, (ExposedInput.mk member input (some start) spec :: later).filterMap (·.memberSlot?) =
            ⟨member, start⟩ :: later.filterMap (·.memberSlot?) := fun _ _ => rfl
        rw [shown]
        simp only [List.mem_cons, ih, MemberSlot.mk.injEq]
        constructor
        · rintro (⟨rfl, rfl⟩ | ⟨same, ⟨above, below⟩, unfed⟩)
          · exact ⟨rfl, ⟨Nat.le_refl _, by omega⟩, by simpa using fed⟩
          · exact ⟨same, ⟨by omega, by omega⟩, unfed⟩
        · rintro ⟨same, ⟨above, below⟩, unfed⟩
          by_cases first : slot = start
          · exact .inl ⟨same, first⟩
          · exact .inr ⟨same, ⟨by omega, by omega⟩, unfed⟩

theorem memberSlots_ascending (config : GroupConfig) (r : Registry) (op : Operation) (member : Nat)
    (inputs : List InputDef) (start : Nat) :
    ((ofInputs config r op member start inputs).filterMap (·.memberSlot?)).Pairwise fun a b => a.slot < b.slot := by
  induction inputs generalizing start with
  | nil => exact .nil
  | cons input rest ih =>
    rw [ofInputs]
    by_cases widget : r.isWidget input
    · simp only [widget, if_true]
      exact ih start
    · by_cases fed : config.feeds member start
      · simp only [widget, fed, if_true]
        exact ih (start + 1)
      · simp only [widget, fed]
        refine List.pairwise_cons.2 ⟨fun inner inside => ?_, ih (start + 1)⟩
        exact ((mem_memberSlots_iff config r op member rest (start + 1) inner).1 inside).2.1.1

end ExposedInput

namespace GroupConfig

-- Members come in the order of their positions.
theorem memberOperations_ascending (config : GroupConfig) (r : Registry) (lookup : String → Option Operation) :
    (config.memberOperations r lookup).Pairwise fun a b => a.1 < b.1 := by
  refine (zipIdx_ascending config.nodes).filterMap _ ?_
  intro a b less x foundX y foundY
  obtain ⟨_, _, rfl⟩ := Option.map_eq_some_iff.1 foundX
  obtain ⟨_, _, rfl⟩ := Option.map_eq_some_iff.1 foundY
  exact less

end GroupConfig

namespace GroupDef

/-- The exposed inputs of a group stand for different slots, which no inner link feeds. -/
structure Exposes (group : GroupDef) : Prop where
  distinct : group.exposure.inputs.Nodup
  unfed : ∀ inner ∈ group.exposure.inputs, group.config.feeds inner.member inner.slot = false

theorem inputs_build (config : GroupConfig) (name : String) (r : Registry) (lookup : String → Option Operation) :
    (build config name r lookup).exposure.inputs =
      (config.withoutFlow.memberOperations r lookup).flatMap fun entry =>
        (ExposedInput.ofInputs config.withoutFlow r entry.2 entry.1 0 entry.2.inputs).filterMap (·.memberSlot?) :=
  List.filterMap_flatMap

theorem exposes_build (config : GroupConfig) (name : String) (r : Registry)
    (lookup : String → Option Operation) : (GroupDef.build config name r lookup).Exposes := by
  have inputs := inputs_build config name r lookup
  have own : (GroupDef.build config name r lookup).config = config.withoutFlow := rfl
  have slots := fun entry : Nat × Operation =>
    ExposedInput.mem_memberSlots_iff config.withoutFlow r entry.2 entry.1 entry.2.inputs 0
  constructor
  · rw [inputs, List.nodup_flatMap]
    constructor
    · intro entry _
      refine (ExposedInput.memberSlots_ascending config.withoutFlow r entry.2 entry.1 entry.2.inputs 0).imp ?_
      intro a b less same
      rw [same] at less
      exact Nat.lt_irrefl _ less
    · refine (config.withoutFlow.memberOperations_ascending r lookup).imp ?_
      intro a b less inner insideA insideB
      exact Nat.ne_of_lt less (((slots a inner).1 insideA).1.symm.trans ((slots b inner).1 insideB).1)
  · intro inner member
    rw [inputs] at member
    obtain ⟨entry, _, inside⟩ := List.mem_flatMap.1 member
    obtain ⟨same, _, unfed⟩ := (slots entry inner).1 inside
    rw [own, same]
    exact unfed

end GroupDef

namespace Definitions

section Entries

variable {holds : String → GroupDef → Prop}

theorem foldl_add_entries (entries : List (String × GroupConfig)) (defs : Definitions)
    (each : ∀ entry ∈ entries, ∀ r lookup, holds (groupType entry.1) (.build entry.2 entry.1 r lookup))
    (earlier : ∀ known ∈ defs.groups.entries, holds known.1 known.2) :
    ∀ known ∈ (entries.foldl add defs).groups.entries, holds known.1 known.2 := by
  induction entries generalizing defs with
  | nil => exact earlier
  | cons entry rest ih =>
    apply ih
    · exact fun later member => each later (List.mem_cons_of_mem _ member)
    · intro known member
      rcases Table.mem_place member with new | old
      · rw [new]
        exact each entry List.mem_cons_self defs.registry defs.operation?
      · exact earlier known old

theorem addAll_entries (defs : Definitions) (pending : List (String × GroupConfig))
    (each : ∀ entry ∈ pending, ∀ r lookup, holds (groupType entry.1) (.build entry.2 entry.1 r lookup))
    (earlier : ∀ known ∈ defs.groups.entries, holds known.1 known.2) :
    ∀ known ∈ (defs.addAll pending).groups.entries, holds known.1 known.2 := by
  fun_induction addAll defs pending with
  | case1 defs pending stuck => exact foldl_add_entries pending defs each earlier
  | case2 defs pending progress ih =>
    apply ih
    · exact fun entry member => each entry (List.mem_filter.1 member).1
    · exact foldl_add_entries _ defs (fun entry member => each entry (List.mem_filter.1 member).1) earlier

variable (holds) in
-- Whatever is true of every description of the configs is true of the groups that are defined.
theorem withGroups_entries (r : Registry) (configs : Table GroupConfig)
    (each : ∀ entry ∈ configs.entries, ∀ r lookup, holds (groupType entry.1) (.build entry.2 entry.1 r lookup)) :
    ∀ known ∈ (withGroups r configs).groups.entries, holds known.1 known.2 :=
  addAll_entries _ _ each fun _ none => nomatch none

end Entries

theorem withGroups_values {holds : GroupDef → Prop} (r : Registry) (configs : Table GroupConfig)
    (each : ∀ entry ∈ configs.entries, ∀ r lookup, holds (.build entry.2 entry.1 r lookup)) :
    ∀ group ∈ (withGroups r configs).groups.values, holds group := by
  intro group member
  obtain ⟨known, inside, rfl⟩ := List.mem_map.1 member
  exact withGroups_entries (fun _ group => holds group) r configs each known inside

theorem withGroups_exposes (r : Registry) (configs : Table GroupConfig) :
    ∀ group ∈ (withGroups r configs).groups.values, group.Exposes :=
  withGroups_values r configs fun entry _ r lookup => GroupDef.exposes_build entry.2 entry.1 r lookup

theorem withGroups_feedsOnce (r : Registry) (configs : Table GroupConfig)
    (once : ∀ entry ∈ configs.entries, entry.2.FeedsOnce) :
    ∀ group ∈ (withGroups r configs).groups.values, group.config.FeedsOnce :=
  withGroups_values r configs fun entry member _ _ => (once entry member).withoutFlow

end Definitions
end Patchbay
