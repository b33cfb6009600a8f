import Patchbay.Proofs.Group.Layout
import Patchbay.Proofs.Group.Returning

/-!
Pass-through members at the entrance of a group. No link inside the group leads to one, and the group declares one
input for it, of the type of the slot behind it. Unless that type makes it a widget, a link into the input goes on to
the member; a widget has no slot for a link, and no link arrives.
-/
set_option autoImplicit false

namespace Patchbay

/-- What an entrance declares: one input, named after its type. -/
def InputDef.ofType (type : String) : InputDef := ⟨type, type, none, [], true⟩

namespace Registry

/-- The type of an entrance makes it a widget, for every input or for those that are named after their type. -/
def IsWidgetType (r : Registry) (type : String) : Prop := type ∈ r.widgetTypes ∨ type ++ ":" ++ type ∈ r.widgetTypes

instance (r : Registry) (type : String) : Decidable (r.IsWidgetType type) := inferInstanceAs (Decidable (_ ∨ _))

theorem isWidget_ofType (r : Registry) (type : String) : r.isWidget (.ofType type) ↔ r.IsWidgetType type := by
  have unforced : (InputDef.ofType type).forcesLink = false := rfl
  rw [isWidget, unforced, IsWidgetType, or_comm]
  simp [InputDef.ofType]

end Registry

namespace GroupConfig

variable {config : GroupConfig} {member : Nat}

/-- The type of the slot that the lowest link out of a member leads to. -/
def entranceType (config : GroupConfig) (member : Nat) : String :=
  ((lowest (·.originSlot) (config.linksFrom member)).bind config.inputType?).getD InputDef.anyType

theorem boundaryOperation?_of_unfed (unfed : config.linksTo member = []) (type : String) :
    config.boundaryOperation? member type = some (((Operation.named type).addRequired (config.entranceType member)
      (.array [.text (config.entranceType member), .object []])).addOutput (config.entranceType member) "") := by
  simp only [boundaryOperation?, unfed, List.isEmpty_nil, Bool.not_true, Bool.and_false, Bool.false_eq_true, if_false]
  cases leaving : config.linksFrom member with
  | nil => simp only [entranceType, leaving]; rfl
  | cons first rest => simp only [entranceType, leaving, List.isEmpty_cons, Bool.false_eq_true, if_false]

theorem feeds_of_unfed (unfed : config.linksTo member = []) (slot : Nat) : config.feeds member slot = false := by
  rw [feeds, unfed]
  rfl

theorem linksTo_withoutFlow (unfed : ∀ link ∈ config.links, link.origin.isSome → link.target.toNat ≠ member) :
    config.withoutFlow.linksTo member = [] := by
  rw [linksTo, innerLinks, List.filter_filter, List.filter_eq_nil_iff]
  intro kept inside
  obtain ⟨link, listed, stripped⟩ := List.mem_filterMap.1 inside
  obtain ⟨origin, target, _⟩ := GroupLink.withoutFlow?_eq_some stripped
  rw [origin, target, Bool.and_eq_true, beq_iff_eq]
  exact fun both => unfed link (List.mem_filter.1 listed).1 both.2 both.1

end GroupConfig

theorem Definitions.isKnown_of_isPassThrough {defs : Definitions} {type : String}
    (through : defs.registry.isPassThrough type) : defs.isKnown type := by
  have kind : defs.registry.virtualKind? type = some .passThrough := eq_of_beq through
  have virtual : defs.registry.virtualNodes.contains type = true := Option.isSome_of_eq_some kind
  rw [isKnown, Registry.isKnown, virtual, Bool.or_true, Bool.true_or]

theorem GroupDef.inputsOf_build {config : GroupConfig} (name : String) {r : Registry}
    {lookup : String → Option Operation} {member : Nat} {op : Operation}
    (acts : config.withoutFlow.operationAt? r lookup member = some op) :
    (build config name r lookup).exposure.inputs.filter (·.member == member) =
      (ExposedInput.ofInputs config.withoutFlow r op member 0 op.inputs).filterMap (·.memberSlot?) := by
  rw [inputs_build]
  refine filter_flatMap_of_mem (config.withoutFlow.memberOperations_ascending r lookup) (fun entry inner within => ?_)
    ((GroupConfig.mem_memberOperations_iff ..).2 acts)
  exact ((ExposedInput.mem_memberSlots_iff ..).1 within).1

namespace Graph

section Arrivals

variable {g : Graph} {defs : Definitions} {place : Node} {group : GroupDef} (staged : g.Staged defs place group)
  (normal : defs.registry.participation place = .normal)

include staged normal

/-- A link from elsewhere into an input that stands for a placed member goes on to that member's slot. -/
theorem Staged.link?_of_entersData {link : Link} (inside : link ∈ g.links) (foreign : link.origin ≠ place.id)
    {index : Nat} (enters : link.entersData place index) {inner : MemberSlot}
    (exposed : group.exposure.inputTarget? index = some inner) (placed : defs.places group.config inner.member) :
    (g.expandInstance defs place group).link? link.id =
      some { link with target := place.id.member inner.member, targetSlot := .ofCount inner.slot } := by
  rw [staged.wired_expandInstance.link?_eq_some_iff, staged.mem_expandInstance (staged.forwards_place normal)]
  exact ⟨.inl ⟨link, inside, .input link index inner enters exposed placed foreign⟩, rfl⟩

/-- Nothing arrives at a member for whose slots no input stands and to which no inner link leads. -/
theorem Staged.target_ne_member {member : Nat} (placed : defs.places group.config member)
    (unexposed : ∀ inner ∈ group.exposure.inputs, inner.member ≠ member) (unfed : group.config.linksTo member = [])
    {link : Link} (inside : link ∈ (g.expandInstance defs place group).links) :
    link.target ≠ place.id.member member := by
  intro arrives
  have hidden : ∀ {index : Nat} {inner : MemberSlot}, group.exposure.inputTarget? index = some inner →
      place.id.member inner.member ≠ place.id.member member := fun exposed same =>
    unexposed _ (List.mem_of_getElem? exposed) (place.id.member_injective same)
  have settled := (staged.mem_expandInstance (staged.forwards_place normal) link).1 inside
  rcases settled with ⟨old, original, resettled⟩ | added
  · cases resettled with
    | kept apart => exact (staged.ends_ne original placed).2 arrives
    | input index inner enters exposed _ foreign => exact hidden exposed arrives
    | output left source leaves comes foreign => exact (staged.ends_ne original placed).2 arrives
    | both left entered source inner leaves comes enters exposed _ => exact hidden exposed arrives
  · have linked := (staged.mem_membersLinked link).2 (.inr added)
    have fed := staged.linking.fed link linked member placed arrives
    rw [GroupConfig.feeds_of_unfed unfed] at fed
    cases fed

end Arrivals

end Graph

/-- Nothing inside the group leads to a pass-through member that is no operation. Exactly where the type of the slot
behind it is no widget type, the group has one link input for the member and no widget, and links from elsewhere reach
it; otherwise the group has one widget and no link input for it, and no link reaches it. -/
theorem Definitions.describe_entrance (defs : Definitions) (name : String) (config : GroupConfig) {member : Nat}
    {node : Node} (there : config.nodes[member]? = some node) (through : defs.registry.isPassThrough node.type)
    (plain : defs.operation? node.type = none)
    (unfed : ∀ link ∈ config.links, link.origin.isSome → link.target.toNat ≠ member) :
    let group := defs.describe name config
    let type := config.withoutFlow.entranceType member
    (¬ defs.registry.IsWidgetType type →
      group.exposure.inputs.filter (·.member == member) = [⟨member, 0⟩] ∧ group.exposure.widgetsOf member = [] ∧
        ∃ index, group.exposure.inputTarget? index = some ⟨member, 0⟩ ∧
          ∀ (all : Definitions) (g : Graph) (place : Node), all.registry = defs.registry →
            g.Staged all place group → all.registry.participation place = .normal →
            ∀ link ∈ g.links, link.entersData place index → link.origin ≠ place.id →
              (g.expandInstance all place group).link? link.id =
                some { link with target := place.id.member member, targetSlot := 0 }) ∧
      (defs.registry.IsWidgetType type →
        group.exposure.inputs.filter (·.member == member) = [] ∧
          group.exposure.widgetsOf member = [⟨member, type, ExposedInput.exposedName member type⟩] ∧
          ∀ (all : Definitions) (g : Graph) (place : Node), all.registry = defs.registry →
            g.Staged all place group → all.registry.participation place = .normal →
            ∀ link ∈ (g.expandInstance all place group).links, link.target ≠ place.id.member member) := by
  intro group type
  have entering := GroupConfig.linksTo_withoutFlow unfed
  have stored : config.withoutFlow.nodes[member]? = some node.withoutLeadingFlow := by
    rw [GroupConfig.getElem?_withoutFlow, there]
    rfl
  have acts : config.withoutFlow.operationAt? defs.registry defs.operation? member =
      some (((Operation.named node.type).addRequired type (.array [.text type, .object []])).addOutput type "") := by
    rw [GroupConfig.operationAt?, stored, Option.bind_some, GroupConfig.memberOperation?,
      show defs.operation? node.withoutLeadingFlow.type = none from plain]
    exact (if_pos through).trans (GroupConfig.boundaryOperation?_of_unfed entering node.type)
  have known : ∀ all : Definitions, all.registry = defs.registry → all.places group.config member := by
    intro all same
    rw [Definitions.places, show group.config = config.withoutFlow from rfl, stored]
    exact Definitions.isKnown_of_isPassThrough (same ▸ through)
  have inputs := GroupDef.inputsOf_build name acts
  have widgets := GroupDef.widgetsOf_build config name defs.registry defs.operation? acts
  rw [show Operation.inputs _ = [InputDef.ofType type] from rfl, ExposedInput.ofInputs] at inputs
  rw [show Operation.inputs _ = [InputDef.ofType type] from rfl] at widgets
  constructor
  · intro slot
    have link : ¬ defs.registry.isWidget (.ofType type) := fun widget => slot ((Registry.isWidget_ofType ..).1 widget)
    rw [if_neg link, GroupConfig.feeds_of_unfed entering, if_neg Bool.false_ne_true] at inputs
    rw [List.filter_cons_of_neg link] at widgets
    have listed : ⟨member, 0⟩ ∈ group.exposure.inputs := by
      have first : ⟨member, 0⟩ ∈ group.exposure.inputs.filter (·.member == member) :=
        inputs ▸ List.mem_singleton_self _
      exact (List.mem_filter.1 first).1
    obtain ⟨index, exposed⟩ := List.mem_iff_getElem?.1 listed
    refine ⟨inputs, widgets, index, exposed, fun all g place same staged normal link inside enters foreign => ?_⟩
    exact staged.link?_of_entersData normal inside foreign enters exposed (known all same)
  · intro typed
    have widget : defs.registry.isWidget (.ofType type) := (Registry.isWidget_ofType ..).2 typed
    rw [if_pos widget] at inputs
    rw [List.filter_cons_of_pos widget] at widgets
    refine ⟨inputs, widgets, fun all g place same staged normal link inside => ?_⟩
    refine staged.target_ne_member normal (known all same) (fun inner listed own => ?_) entering inside
    have none := List.filter_eq_nil_iff.1 inputs inner listed
    exact none (beq_iff_eq.2 own)

/-- A reroute at the entrance that leads to one of the two inputs behind it. -/
def routedConfig (slot : Word) : GroupConfig where
  nodes := [((Node.plain (.number 5) "Reroute").addInput "" "*").addOutput "" "*",
    ((Node.plain (.number 6) "Blur").addInput "image" "IMAGE").addInput "radius" "INT"]
  links := [⟨some 0, 0, 1, slot, []⟩]
  extra := []

def routedGroup (slot : Word) : GroupDef :=
  (Definitions.ofRegistry polishRegistry).describe "routed" (routedConfig slot)

def routedPlace : Node :=
  { Node.plain (.number 40) "workflow/routed" with inputs := [{ InputSlot.plain "0" "*" with link := some 1 }] }

def routing : Graph where
  nodes := [{ Node.plain (.number 1) "Load" with outputs := [{ OutputSlot.plain "" "*" with links := some [1] }] },
    routedPlace]
  links := [⟨1, .number 1, 0, .number 40, 0, "*"⟩]
  nextLinkId := 2

theorem Definitions.describe_entrance_routed :
    let defs := ofRegistry polishRegistry
    (routedConfig 0).nodes[0]? = some (((Node.plain (.number 5) "Reroute").addInput "" "*").addOutput "" "*") ∧
      defs.registry.isPassThrough "Reroute" ∧ defs.operation? "Reroute" = none ∧
      (∀ link ∈ (routedConfig 0).links, link.origin.isSome → link.target.toNat ≠ 0) ∧
      (routedConfig 0).withoutFlow.entranceType 0 = "IMAGE" ∧
      (routedGroup 0).exposure.inputs.filter (·.member == 0) = [⟨0, 0⟩] ∧
      (routedGroup 0).exposure.widgetsOf 0 = [] ∧
      (routing.expandInstance defs routedPlace (routedGroup 0)).link? 1 =
        some ⟨1, .number 1, 0, .name "40:0", 0, "*"⟩ := by
  intro defs
  have there : (routedConfig 0).nodes[0]? =
      some (((Node.plain (.number 5) "Reroute").addInput "" "*").addOutput "" "*") := rfl
  have through : defs.registry.isPassThrough "Reroute" := by decide +kernel
  have plain : defs.operation? "Reroute" = none := by decide +kernel
  have unfed : ∀ link ∈ (routedConfig 0).links, link.origin.isSome → link.target.toNat ≠ 0 := by decide +kernel
  have staged : routing.Staged defs routedPlace (routedGroup 0) :=
    ⟨by decide +kernel, by decide +kernel, by decide +kernel, by decide +kernel, by decide +kernel,
      GroupDef.exposes_build .., by decide +kernel, by decide +kernel, by decide +kernel⟩
  obtain ⟨inputs, widgets, index, exposed, survives⟩ :=
    (defs.describe_entrance "routed" (routedConfig 0) there through plain unfed).1 (by decide +kernel)
  have only : (routedGroup 0).exposure.inputs = [⟨0, 0⟩] := by decide +kernel
  have first : index = 0 := by
    change (routedGroup 0).exposure.inputs[index]? = _ at exposed
    rw [only] at exposed
    have bound := (List.getElem?_eq_some_iff.1 exposed).1
    exact Nat.lt_one_iff.1 bound
  have enters : (⟨1, .number 1, 0, .number 40, 0, "*"⟩ : Link).entersData routedPlace index := by
    rw [first]
    exact ⟨0, by decide +kernel, rfl, rfl⟩
  have arrives := survives defs routing routedPlace rfl staged (by decide +kernel) _ List.mem_cons_self enters
    (by decide +kernel)
  exact ⟨there, through, plain, unfed, by decide +kernel, inputs, widgets, arrives⟩

/-- The same reroute in front of a number becomes a widget. It takes no link, and the link that was to go through it
goes to the input behind. -/
theorem Definitions.describe_entrance_number :
    let defs := ofRegistry polishRegistry
    (routedConfig 1).nodes[0]? = some (((Node.plain (.number 5) "Reroute").addInput "" "*").addOutput "" "*") ∧
      defs.registry.isPassThrough "Reroute" ∧ defs.operation? "Reroute" = none ∧
      (∀ link ∈ (routedConfig 1).links, link.origin.isSome → link.target.toNat ≠ 0) ∧
      (routedConfig 1).withoutFlow.entranceType 0 = "INT" ∧
      (¬ ∃ index, (routedGroup 1).exposure.inputTarget? index = some ⟨0, 0⟩) ∧
      (routedGroup 1).exposure.widgetsOf 0 = [⟨0, "INT", "0:INT"⟩] ∧
      routing.Staged defs routedPlace (routedGroup 1) ∧
      (routing.expandInstance defs routedPlace (routedGroup 1)).link? 1 =
        some ⟨1, .number 1, 0, .name "40:1", 0, "*"⟩ := by
  intro defs
  have staged : routing.Staged defs routedPlace (routedGroup 1) :=
    ⟨by decide +kernel, by decide +kernel, by decide +kernel, by decide +kernel, by decide +kernel,
      GroupDef.exposes_build .., by decide +kernel, by decide +kernel, by decide +kernel⟩
  have only : (routedGroup 1).exposure.inputs = [⟨1, 0⟩] := by decide +kernel
  refine ⟨rfl, by decide +kernel, by decide +kernel, by decide +kernel, by decide +kernel, ?_, by decide +kernel,
    staged, by decide +kernel⟩
  rintro ⟨index, exposed⟩
  have listed := List.mem_of_getElem? exposed
  rw [only] at listed
  revert listed
  decide

end Patchbay
