import Patchbay.Proofs.Group.Rewiring

/-!
The links of an instance that may feed itself. Its outputs are taken one after the other. A walk that comes back
to the instance at an output that has had its turn goes on where the links of this output went. At any other output
it ends at the instance, and a link that is moved there goes with the instance.
-/
set_option autoImplicit false

namespace Patchbay

/-- The output slot is the data output of this number. -/
def Producer.exits (producer : Producer) (node : Node) (index : Nat) : Prop :=
  producer.node = node.id ∧ node.dataOutputs[index]? = some producer.slot.toNat

theorem Link.leavesData_iff (link : Link) (node : Node) (index : Nat) :
    link.leavesData node index ↔ (⟨link.origin, link.originSlot⟩ : Producer).exits node index := by
  constructor
  · rintro ⟨slot, there, origin, rfl⟩
    exact ⟨origin, there⟩
  · rintro ⟨origin, there⟩
    exact ⟨_, there, origin, rfl⟩

namespace Graph

/-! ### One output after the other -/

section Stages

variable (g : Graph) (defs : Definitions) (place : Node) (group : GroupDef)

-- The graph when the links out of so many outputs have been moved.
def outputStage (count : Nat) : Graph :=
  ((place.outputs.drop place.flowOutputCount).take count).zipIdx.foldl (moveOutput defs group place.id)
    (g.inputsMoved defs place group)

-- What the walk for an output comes to when its turn has come.
def producedAt (index : Nat) : Option Producer :=
  ((group.exposure.outputs[index]?).filter (defs.places group.config ·.member)).bind fun inner =>
    (g.outputStage defs place group index).resolvePassThrough defs.registry
      ⟨place.id.member inner.member, .ofCount inner.slot⟩

theorem outputStage_of_length_le {count : Nat} (all : (place.outputs.drop place.flowOutputCount).length ≤ count) :
    g.outputStage defs place group count = g.outputsMoved defs place group := by
  rw [outputStage, outputsMoved, List.take_of_length_le all]

theorem outputStage_succ {count : Nat} {output : OutputSlot}
    (found : (place.outputs.drop place.flowOutputCount)[count]? = some output) :
    g.outputStage defs place group (count + 1) = output.linkIds.foldl
      (moveOrigin (g.producedAt defs place group count)) (g.outputStage defs place group count) := by
  have length : ((place.outputs.drop place.flowOutputCount).take count).length = count :=
    List.length_take_of_le (Nat.le_of_lt (List.getElem?_eq_some_iff.1 found).1)
  rw [outputStage, List.take_add_one, found, Option.toList_some, List.zipIdx_append, List.foldl_append, length,
    Nat.zero_add]
  rfl

-- All links are moved as they were before the first one was, only to what the walks of their turns come to.
theorem outputStage_eq (count : Nat) : g.outputStage defs place group count =
    (held (·.linkIds) ((place.outputs.drop place.flowOutputCount).take count)).foldl
      (rerouteHeld fun index => outputChange (g.producedAt defs place group index))
      (g.inputsMoved defs place group) := by
  induction count with
  | zero => rfl
  | succ count ih =>
    cases found : (place.outputs.drop place.flowOutputCount)[count]? with
    | none =>
      have all := List.getElem?_eq_none_iff.1 found
      rw [outputStage_of_length_le _ _ _ _ all, List.take_of_length_le all] at ih
      rw [outputStage_of_length_le _ _ _ _ (Nat.le_succ_of_le all), List.take_of_length_le (Nat.le_succ_of_le all), ih]
    | some output =>
      have length : ((place.outputs.drop place.flowOutputCount).take count).length = count :=
        List.length_take_of_le (Nat.le_of_lt (List.getElem?_eq_some_iff.1 found).1)
      have steps : moveOrigin (g.producedAt defs place group count) =
          fun h id => h.reroute (id, outputChange (g.producedAt defs place group count)) :=
        funext₂ (moveOrigin_eq _)
      rw [g.outputStage_succ defs place group found, steps, List.take_add_one, found, Option.toList_some, held_append,
        List.foldl_append, ← ih, length, List.zipIdx_singleton, List.flatMap_singleton, List.foldl_map]
      rfl

theorem bare_outputStage (count : Nat) :
    (g.outputStage defs place group count).bare = (g.inputsMoved defs place group).bare :=
  bare_foldl _ (bare_moveOutput defs group place.id) _ _

theorem node?_outputStage (count : Nat) (id : NodeId) :
    ((g.inputsMoved defs place group).node? id).map (·.unlinked) =
      ((g.outputStage defs place group count).node? id).map (·.unlinked) := by
  rw [bare_node?, bare_node?, bare_outputStage]

end Stages

section Stages

variable {g : Graph} {defs : Definitions} {place : Node} {group : GroupDef}
variable (staged : g.Staged defs place group)

include staged in
theorem Staged.sound_outputStage (count : Nat) : Sound (g.NamesOrMember place.id)
    (g.membersPlaced defs place group).roster (g.outputStage defs place group count) :=
  staged.sound_inputsMoved.foldl_moveOutput defs group place.id (fun k => .inr ⟨k, rfl⟩) _

include staged in
-- Moving links into the instance leaves their origins as they are.
theorem Staged.origin_inputsMoved {link : Link} (member : link ∈ (g.inputsMoved defs place group).links) :
    defs.Adds group.config place.id g.nextLinkId group.config.links link ∨
      ∃ old ∈ g.links, link.id = old.id ∧ link.origin = old.origin ∧ link.originSlot = old.originSlot := by
  rcases (staged.mem_inputsMoved link).1 member with (⟨original, _⟩ | added) | ⟨index, old, original, _, made⟩
  · exact .inr ⟨link, original, rfl, rfl, rfl⟩
  · exact .inl added
  · obtain ⟨inner, _, rfl⟩ := Option.map_eq_some_iff.1 made
    exact .inr ⟨old, original, rfl, rfl, rfl⟩

include staged in
theorem Staged.mem_heldOutputs_iff {link : Link} (member : link ∈ (g.inputsMoved defs place group).links)
    (index : Nat) : (index, link.id) ∈ place.heldOutputs ↔ link.leavesData place index := by
  rw [staged.wired.mem_heldOutputs staged.present staged.lead]
  rcases staged.origin_inputsMoved member with added | ⟨old, original, sameId, origin, slot⟩
  · obtain ⟨⟨k, _, comes⟩, _⟩ := added.ends
    constructor
    · rintro ⟨twin, inside, same, _⟩
      exact absurd same (staged.id_ne_of_adds inside added)
    · intro leaves
      exact absurd (comes.symm.trans leaves.origin) (place.id.member_ne_self k)
  · have alike : old.leavesData place index ↔ link.leavesData place index := by
      rw [Link.leavesData_iff, Link.leavesData_iff, origin, slot]
    rw [← alike]
    constructor
    · rintro ⟨twin, inside, same, leaves⟩
      rw [← staged.wired.link_unique inside original (same.trans sameId)]
      exact leaves
    · exact fun leaves => ⟨old, original, sameId.symm, leaves⟩

include staged in
theorem Staged.mem_outputStage (count : Nat) (other : Link) : other ∈ (g.outputStage defs place group count).links ↔
    (other ∈ (g.inputsMoved defs place group).links ∧ ∀ index < count, ¬ other.leavesData place index) ∨
      ∃ index < count, ∃ link ∈ (g.inputsMoved defs place group).links, link.leavesData place index ∧
        outputChange (g.producedAt defs place group index) link = some other := by
  have listed : ∀ index, ∀ link ∈ (g.inputsMoved defs place group).links,
      ((index, link.id) ∈ held (·.linkIds) ((place.outputs.drop place.flowOutputCount).take count) ↔
        index < count ∧ link.leavesData place index) := by
    intro index link member
    rw [mem_held_take]
    exact and_congr_right fun _ => staged.mem_heldOutputs_iff member index
  have distinct : ((held (·.linkIds) ((place.outputs.drop place.flowOutputCount).take count)).map Prod.snd).Nodup := by
    have all := staged.wired.heldOutputs_distinct staged.present
    rw [Node.heldOutputs, ← List.take_append_drop count (place.outputs.drop place.flowOutputCount), held_append,
      List.map_append] at all
    exact all.of_append_left
  rw [outputStage_eq, mem_foldl_rerouteHeld staged.sound_inputsMoved.wired.linkIds distinct
    fun index => outputChange_keepsId _]
  refine or_congr (and_congr_right fun member => ?_) (exists_congr fun index => ?_)
  · simp only [listed _ other member, not_and]
  · constructor
    · rintro ⟨link, member, inside, made⟩
      obtain ⟨earlier, leaves⟩ := (listed index link member).1 inside
      exact ⟨earlier, link, member, leaves, made⟩
    · rintro ⟨earlier, link, member, leaves, made⟩
      exact ⟨link, member, (listed index link member).2 ⟨earlier, leaves⟩, made⟩

include staged in
theorem Staged.mem_outputsMoved (other : Link) : other ∈ (g.outputsMoved defs place group).links ↔
    (other ∈ (g.inputsMoved defs place group).links ∧ ∀ index, ¬ other.leavesData place index) ∨
      ∃ index, ∃ link ∈ (g.inputsMoved defs place group).links, link.leavesData place index ∧
        outputChange (g.producedAt defs place group index) link = some other := by
  have bound : ∀ link ∈ (g.inputsMoved defs place group).links, ∀ index, link.leavesData place index →
      index < (place.outputs.drop place.flowOutputCount).length := by
    intro link member index leaves
    obtain ⟨output, there, _⟩ := mem_held.1 ((staged.mem_heldOutputs_iff member index).2 leaves)
    exact (List.getElem?_eq_some_iff.1 there).1
  rw [← g.outputStage_of_length_le defs place group (Nat.le_refl _), staged.mem_outputStage]
  constructor
  · rintro (⟨member, apart⟩ | ⟨index, _, link, member, leaves, made⟩)
    · exact .inl ⟨member, fun index leaves => apart index (bound other member index leaves) leaves⟩
    · exact .inr ⟨index, link, member, leaves, made⟩
  · rintro (⟨member, apart⟩ | ⟨index, link, member, leaves, made⟩)
    · exact .inl ⟨member, fun index _ => apart index⟩
    · exact .inr ⟨index, bound link member index leaves, link, member, leaves, made⟩

end Stages

/-! ### Walks that come back to the instance -/

section Walks

variable {g : Graph} {defs : Definitions} {place : Node} {group : GroupDef}
variable (staged : g.Staged defs place group)
variable (ends : ∀ exit : Producer, exit.node = place.id →
  (g.inputsMoved defs place group).Forwards defs.registry 0 exit exit)

-- What an output is given belongs to a node that passes nothing on.
theorem arrives_of_producedAt {index : Nat} {source : Producer}
    (produced : g.producedAt defs place group index = some source) (count : Nat) :
    (g.outputStage defs place group count).Forwards defs.registry 0 source source := by
  obtain ⟨inner, _, resolved⟩ := Option.bind_eq_some_iff.1 produced
  obtain ⟨steps, walk⟩ := resolvePassThrough_eq_some_iff.1 resolved
  refine walk.arrives.here_congr ?_
  rw [← node?_outputStage, g.node?_outputStage defs place group count]

include staged ends in
-- A walk among links that have been moved is one among the links before, or one that came back to the
-- instance at an output whose links have been moved.
theorem Staged.forwards_of_outputStage {count steps : Nat} {producer source : Producer}
    (walk : (g.outputStage defs place group count).Forwards defs.registry steps producer source) :
    (∃ steps, (g.inputsMoved defs place group).Forwards defs.registry steps producer source) ∨
      ∃ index < count, ∃ exit steps, (g.inputsMoved defs place group).Forwards defs.registry steps producer exit ∧
        exit.exits place index ∧ g.producedAt defs place group index = some source := by
  have wired := (staged.sound_outputStage count).wired
  have before := staged.sound_inputsMoved.wired
  induction walk with
  | here producer node found real =>
    have same := (g.node?_outputStage defs place group count producer.node).symm
    exact .inl ⟨0, (Forwards.here producer node found real).here_congr same⟩
  | back steps producer source node link found through fed rest ih =>
    have same := (g.node?_outputStage defs place group count producer.node).symm
    rcases (staged.mem_outputStage count link).1 (mem_of_incoming? fed) with
      ⟨member, _⟩ | ⟨index, earlier, old, member, leaves, made⟩
    · rcases ih with ⟨steps, walk⟩ | ⟨index, earlier, exit, steps, walk, exits, produced⟩
      · exact .inl ⟨_, .back_congr wired before found through fed same member rfl rfl walk⟩
      · exact .inr ⟨index, earlier, exit, _, .back_congr wired before found through fed same member rfl rfl walk, exits,
          produced⟩
    · obtain ⟨moved, produced, rfl⟩ := Option.map_eq_some_iff.1 made
      obtain ⟨_, same'⟩ := rest.zero_of_real (arrives_of_producedAt produced count).source_real
      cases same'
      exact .inr ⟨index, earlier, _, _, .back_congr wired before found through fed same member rfl rfl
        (ends _ leaves.origin), (old.leavesData_iff place index).1 leaves, produced⟩

include staged ends in
-- A walk that does not come to the instance is not changed.
theorem Staged.outputStage_of_forwards (count : Nat) {steps : Nat} {producer source : Producer}
    (walk : (g.inputsMoved defs place group).Forwards defs.registry steps producer source)
    (away : source.node ≠ place.id) :
    (g.outputStage defs place group count).Forwards defs.registry steps producer source := by
  induction walk with
  | here producer node found real =>
    exact (Forwards.here producer node found real).here_congr (g.node?_outputStage defs place group count _)
  | back steps producer source node link found through fed rest ih =>
    refine .back_congr staged.sound_inputsMoved.wired (staged.sound_outputStage count).wired found through fed
      (g.node?_outputStage defs place group count _) ?_ rfl rfl (ih away)
    refine (staged.mem_outputStage count link).2 (.inl ⟨mem_of_incoming? fed, fun index _ leaves => away ?_⟩)
    obtain ⟨_, same⟩ := rest.zero_of_real (ends _ leaves.origin).source_real
    rw [← same]
    exact leaves.origin

include staged ends in
-- One that comes to an output whose links have been moved goes on to what this was given.
theorem Staged.outputStage_of_exits {count index steps : Nat} {producer exit source : Producer}
    (walk : (g.inputsMoved defs place group).Forwards defs.registry steps producer exit)
    (apart : producer.node ≠ place.id) (exits : exit.exits place index) (earlier : index < count)
    (produced : g.producedAt defs place group index = some source) :
    (g.outputStage defs place group count).Forwards defs.registry steps producer source := by
  induction walk with
  | here producer => exact absurd exits.1 apart
  | back steps producer exit node link found through fed rest ih =>
    have before := staged.sound_inputsMoved.wired
    have wired := (staged.sound_outputStage count).wired
    have same := g.node?_outputStage defs place group count producer.node
    have member := mem_of_incoming? fed
    by_cases returns : link.origin = place.id
    · obtain ⟨none, there⟩ := rest.zero_of_real (ends _ returns).source_real
      subst none
      have leaves : link.leavesData place index := by
        rw [link.leavesData_iff, there]
        exact exits
      have moved : { link with origin := source.node, originSlot := source.slot } ∈
          (g.outputStage defs place group count).links := by
        exact (staged.mem_outputStage count _).2
          (.inr ⟨index, earlier, link, member, leaves, outputChange_of_eq produced link⟩)
      exact .back_congr before wired found through fed same moved rfl rfl (arrives_of_producedAt produced count)
    · have kept : link ∈ (g.outputStage defs place group count).links :=
        (staged.mem_outputStage count link).2 (.inl ⟨member, fun _ _ leaves => returns leaves.origin⟩)
      exact .back_congr before wired found through fed same kept rfl rfl (ih returns exits)

end Walks

/-! ### Where the outputs of an instance come from -/

section Emerging

variable (g : Graph) (defs : Definitions) (place : Node) (group : GroupDef)

/-- The data output of this number comes from the producer. One goes back from the member output that it stands for,
among the members and with the links into the instance moved to them. Where that ends at an output of the instance,
one goes on from there, as far as the first output `meets` this one. -/
inductive Emerges (meets : Nat → Nat → Prop) : Nat → Producer → Prop
  | directly (index : Nat) (inner : MemberSlot) (steps : Nat) (source : Producer)
      (exposed : group.exposure.outputs[index]? = some inner) (placed : defs.places group.config inner.member)
      (walk : (g.inputsMoved defs place group).Forwards defs.registry steps
        ⟨place.id.member inner.member, .ofCount inner.slot⟩ source)
      (away : source.node ≠ place.id) : Emerges meets index source
  | onward (index next : Nat) (inner : MemberSlot) (steps : Nat) (exit source : Producer)
      (exposed : group.exposure.outputs[index]? = some inner) (placed : defs.places group.config inner.member)
      (walk : (g.inputsMoved defs place group).Forwards defs.registry steps
        ⟨place.id.member inner.member, .ofCount inner.slot⟩ exit)
      (exits : exit.exits place next) (met : meets index next) (rest : Emerges meets next source) :
      Emerges meets index source

variable {g defs place group}
variable (staged : g.Staged defs place group)
variable (ends : ∀ exit : Producer, exit.node = place.id →
  (g.inputsMoved defs place group).Forwards defs.registry 0 exit exit)

theorem Emerges.mono {meets others : Nat → Nat → Prop} (more : ∀ a b, meets a b → others a b) {index : Nat}
    {source : Producer} (emerges : g.Emerges defs place group meets index source) :
    g.Emerges defs place group others index source := by
  induction emerges with
  | directly index inner steps source exposed placed walk away =>
    exact .directly index inner steps source exposed placed walk away
  | onward index next inner steps exit source exposed placed walk exits met _ ih =>
    exact .onward index next inner steps exit source exposed placed walk exits (more index next met) ih

theorem producedAt_eq_some_iff (index : Nat) (source : Producer) :
    g.producedAt defs place group index = some source ↔
      ∃ inner, group.exposure.outputs[index]? = some inner ∧ defs.places group.config inner.member ∧
        ∃ steps, (g.outputStage defs place group index).Forwards defs.registry steps
          ⟨place.id.member inner.member, .ofCount inner.slot⟩ source := by
  rw [producedAt, Option.bind_eq_some_iff]
  refine exists_congr fun inner => ?_
  rw [Option.filter_eq_some_iff, and_assoc, resolvePassThrough_eq_some_iff]

include staged ends in
-- A walk may go on from the outputs that have had their turn, and these are the lower ones.
theorem Staged.producedAt_iff (index : Nat) (source : Producer) :
    g.producedAt defs place group index = some source ∧ source.node ≠ place.id ↔
      g.Emerges defs place group (· > ·) index source := by
  constructor
  · rintro ⟨produced, away⟩
    induction index using Nat.strongRecOn with
    | ind index ih =>
      obtain ⟨inner, exposed, placed, steps, walk⟩ := (producedAt_eq_some_iff index source).1 produced
      rcases staged.forwards_of_outputStage ends walk with
        ⟨steps, before⟩ | ⟨next, earlier, exit, steps, before, exits, given⟩
      · exact .directly index inner steps source exposed placed before away
      · exact .onward index next inner steps exit source exposed placed before exits earlier (ih next earlier given)
  · intro emerges
    induction emerges with
    | directly index inner steps source exposed placed walk away =>
      refine ⟨(producedAt_eq_some_iff index source).2 ⟨inner, exposed, placed, steps, ?_⟩, away⟩
      exact staged.outputStage_of_forwards ends index walk away
    | onward index next inner steps exit source exposed placed walk exits earlier _ ih =>
      refine ⟨(producedAt_eq_some_iff index source).2 ⟨inner, exposed, placed, steps, ?_⟩, ih.2⟩
      exact staged.outputStage_of_exits ends walk (place.id.member_ne_self inner.member) exits earlier ih.1

end Emerging

/-! ### The links at the instance -/

/-- What becomes of a link when an instance is replaced whose outputs come from these producers. One that no case
speaks of is removed. -/
inductive Resettled (defs : Definitions) (place : Node) (group : GroupDef) (emerges : Nat → Producer → Prop) :
    Link → Link → Prop
  | kept (link : Link) (apart : touches place.id link = false) : Resettled defs place group emerges link link
  | input (link : Link) (index : Nat) (inner : MemberSlot) (enters : link.entersData place index)
      (exposed : group.exposure.inputTarget? index = some inner) (placed : defs.places group.config inner.member)
      (foreign : link.origin ≠ place.id) : Resettled defs place group emerges link
        { link with target := place.id.member inner.member, targetSlot := .ofCount inner.slot }
  | output (link : Link) (index : Nat) (source : Producer) (leaves : link.leavesData place index)
      (comes : emerges index source) (foreign : link.target ≠ place.id) : Resettled defs place group emerges link
        { link with origin := source.node, originSlot := source.slot }
  | both (link : Link) (left entered : Nat) (source : Producer) (inner : MemberSlot)
      (leaves : link.leavesData place left) (comes : emerges left source) (enters : link.entersData place entered)
      (exposed : group.exposure.inputTarget? entered = some inner) (placed : defs.places group.config inner.member) :
      Resettled defs place group emerges link
        { link with
          origin := source.node
          originSlot := source.slot
          target := place.id.member inner.member
          targetSlot := .ofCount inner.slot }

theorem Resettled.sameId {defs : Definitions} {place : Node} {group : GroupDef} {emerges : Nat → Producer → Prop}
    {old link : Link} (resettled : Resettled defs place group emerges old link) : link.id = old.id := by
  cases resettled <;> rfl

theorem Resettled.mono {defs : Definitions} {place : Node} {group : GroupDef} {emerges others : Nat → Producer → Prop}
    (more : ∀ index source, emerges index source → others index source) {old link : Link}
    (resettled : Resettled defs place group emerges old link) : Resettled defs place group others old link := by
  cases resettled with
  | kept apart => exact .kept _ apart
  | input index inner enters exposed placed foreign => exact .input old index inner enters exposed placed foreign
  | output index source leaves comes foreign => exact .output old index source leaves (more index source comes) foreign
  | both left entered source inner leaves comes enters exposed placed =>
    exact .both old left entered source inner leaves (more left source comes) enters exposed placed

section Replaced

variable {g : Graph} {defs : Definitions} {place : Node} {group : GroupDef}
variable (staged : g.Staged defs place group)
variable (ends : ∀ exit : Producer, exit.node = place.id →
  (g.inputsMoved defs place group).Forwards defs.registry 0 exit exit)

include staged in
theorem Staged.forwards_place (normal : defs.registry.participation place = .normal) (exit : Producer)
    (back : exit.node = place.id) : (g.inputsMoved defs place group).Forwards defs.registry 0 exit exit := by
  have found : g.node? exit.node = some place := by
    rw [back]
    exact (node?_eq_some_iff staged.wired.nodeIds _ _).2 ⟨staged.present, rfl⟩
  have real : ¬ defs.registry.isPassThrough place.type := by
    intro through
    rw [Registry.participation_of_isPassThrough through] at normal
    cases normal
  refine (Forwards.here exit place found real).here_congr (bare_node?_inputsMoved fun k _ => ?_).symm
  rw [back]
  exact (place.id.member_ne_self k).symm

include staged ends in
theorem Staged.mem_expandInstance (other : Link) : other ∈ (g.expandInstance defs place group).links ↔
    (∃ old ∈ g.links, Resettled defs place group (g.Emerges defs place group (· > ·)) old other) ∨
      defs.Adds group.config place.id g.nextLinkId group.config.links other := by
  rw [staged.mem_removeInstance, staged.mem_outputsMoved, touches_eq_false_iff]
  constructor
  · rintro ⟨⟨before, stays⟩ | ⟨left, link, before, leaves, made⟩, origin, target⟩
    · rcases (staged.mem_inputsMoved other).1 before with (⟨original, _⟩ | added) | ⟨index, old, original, enters, made⟩
      · exact .inl ⟨other, original, .kept other ((touches_eq_false_iff _ _).2 ⟨origin, target⟩)⟩
      · exact .inr added
      · obtain ⟨inner, exposed, placed, rfl⟩ := (inputChange_eq_some_iff ..).1 made
        exact .inl ⟨old, original, .input old index inner enters exposed placed origin⟩
    · obtain ⟨source, produced, rfl⟩ := Option.map_eq_some_iff.1 made
      have comes := (staged.producedAt_iff ends left source).1 ⟨produced, origin⟩
      rcases (staged.mem_inputsMoved link).1 before with (⟨original, _⟩ | added) | ⟨index, old, original, enters, made⟩
      · exact .inl ⟨link, original, .output link left source leaves comes target⟩
      · obtain ⟨⟨k, _, start⟩, _⟩ := added.ends
        exact absurd (start.symm.trans leaves.origin) (place.id.member_ne_self k)
      · obtain ⟨inner, exposed, placed, rfl⟩ := (inputChange_eq_some_iff ..).1 made
        exact .inl ⟨old, original, .both old left index source inner leaves comes enters exposed placed⟩
  · rintro (⟨old, original, resettled⟩ | added)
    · cases resettled with
      | kept apart =>
        obtain ⟨origin, target⟩ := (touches_eq_false_iff _ _).1 apart
        have before := (staged.mem_inputsMoved other).2 (.inl (.inl ⟨original, fun _ enters => target enters.target⟩))
        exact ⟨.inl ⟨before, fun _ leaves => origin leaves.origin⟩, origin, target⟩
      | input index inner enters exposed placed foreign =>
        have made := (inputChange_eq_some_iff defs group place.id old).2 ⟨inner, exposed, placed, rfl⟩
        have before := (staged.mem_inputsMoved _).2 (.inr ⟨index, old, original, enters, made⟩)
        exact ⟨.inl ⟨before, fun _ leaves => foreign leaves.origin⟩, foreign, place.id.member_ne_self inner.member⟩
      | output left source leaves comes foreign =>
        obtain ⟨produced, away⟩ := (staged.producedAt_iff ends left source).2 comes
        have before := (staged.mem_inputsMoved old).2 (.inl (.inl ⟨original, fun _ enters => foreign enters.target⟩))
        exact ⟨.inr ⟨left, old, before, leaves, outputChange_of_eq produced old⟩, away, foreign⟩
      | both left entered source inner leaves comes enters exposed placed =>
        obtain ⟨produced, away⟩ := (staged.producedAt_iff ends left source).2 comes
        have made := (inputChange_eq_some_iff defs group place.id old).2 ⟨inner, exposed, placed, rfl⟩
        have before := (staged.mem_inputsMoved _).2 (.inr ⟨entered, old, original, enters, made⟩)
        refine ⟨.inr ⟨left, _, before, leaves, outputChange_of_eq produced _⟩, away, ?_⟩
        exact place.id.member_ne_self inner.member
    · obtain ⟨⟨i, _, origin⟩, j, _, target⟩ := added.ends
      have before := (staged.mem_inputsMoved other).2 (.inl (.inr added))
      rw [origin, target]
      refine ⟨.inl ⟨before, fun index leaves => ?_⟩, place.id.member_ne_self i, place.id.member_ne_self j⟩
      exact place.id.member_ne_self i (origin.symm.trans leaves.origin)

end Replaced

/-- Replacing an instance that takes part in the run leaves, under the ids of the links that were there, what these
are resettled to, also where the instance feeds itself. The outputs come from what the walks lead to that go on from
an output of the instance only to lower ones. So a link can be lost, but none is led astray. -/
theorem expandInstance_resettles {defs : Definitions} {r : Registry} {configs : Table GroupConfig}
    (made : defs = Definitions.withGroups r configs) (g : Graph) (wired : g.Wired) (ahead : g.Ahead) {place : Node}
    (present : place ∈ g.nodes) {group : GroupDef} (known : defs.group? place.type = some group)
    (normal : defs.registry.participation place = .normal) (lead : place.flowSlotsLead = true)
    (free : g.FreeFor defs group.config place.id) (fits : group.SlotsFit) (once : group.config.FeedsOnce)
    (room : defs.HasRoom g group) :
    (g.expandInstance defs place group).Wired ∧
      (∀ old ∈ g.links, ∀ link, (g.expandInstance defs place group).link? old.id = some link ↔
        Resettled defs place group (g.Emerges defs place group (· > ·)) old link) ∧
      ∀ old ∈ g.links, ∀ link, (g.expandInstance defs place group).link? old.id = some link →
        Resettled defs place group (g.Emerges defs place group fun _ _ => True) old link := by
  have exposes : group.Exposes := by
    have member := Definitions.mem_values_of_group? known
    rw [made] at member
    exact Definitions.withGroups_exposes r configs group member
  have staged : g.Staged defs place group := ⟨wired, ahead, present, lead, free, exposes, fits, once, room⟩
  have ends := staged.forwards_place normal
  have after := staged.wired_expandInstance
  have settled : ∀ old ∈ g.links, ∀ link, (g.expandInstance defs place group).link? old.id = some link ↔
      Resettled defs place group (g.Emerges defs place group (· > ·)) old link := by
    intro old original link
    rw [after.link?_eq_some_iff, staged.mem_expandInstance ends]
    constructor
    · rintro ⟨⟨other, inside, resettled⟩ | added, same⟩
      · rw [wired.link_unique original inside (same.symm.trans resettled.sameId)]
        exact resettled
      · exact absurd same.symm (staged.id_ne_of_adds original added)
    · exact fun resettled => ⟨.inl ⟨old, original, resettled⟩, resettled.sameId⟩
  refine ⟨after, settled, fun old original link found => ?_⟩
  exact ((settled old original link).1 found).mono fun _ _ => Emerges.mono fun _ _ _ => trivial

-- A group of two members that are not linked to each other, and an instance of which one output feeds one input.
def echoConfig (first second : String) : GroupConfig :=
  ⟨[chained (.number 0) first none none, chained (.number 1) second none none], [], []⟩

def echoDefinitions (config : GroupConfig) : Definitions :=
  let sampler := (Operation.named "Sampler").addRequired "latent" (.text "LATENT")
  .withGroups (Registry.standard.insert (sampler.addOutput "LATENT" "latent")) (.ofList [("echo", config)])

def echoPlace (first second : Option LinkId) (upper lower : LinkId) : Node :=
  { Node.plain (.number 10) "workflow/echo" with
    inputs := [{ InputSlot.plain "0:latent" "LATENT" with link := first },
      { InputSlot.plain "1:latent" "LATENT" with link := second }]
    outputs := [{ OutputSlot.plain "0:latent" "LATENT" with links := some [upper] },
      { OutputSlot.plain "1:latent" "LATENT" with links := some [lower] }] }

def echo (place : Node) (links : List Link) : Graph where
  nodes := [place, chained (.number 3) "Sampler" (some 2) none]
  links := links
  nextLinkId := 3

-- The reroute comes last, so its output has its turn after the one that feeds it.
def forthDefinitions : Definitions := echoDefinitions (echoConfig "Sampler" "Reroute")

def forthGroup : GroupDef := forthDefinitions.describe "echo" (echoConfig "Sampler" "Reroute")

def forthPlace : Node := echoPlace none (some 1) 1 2

def echoForth : Graph := echo forthPlace
  [⟨1, .number 10, 0, .number 10, 1, "LATENT"⟩, ⟨2, .number 10, 1, .number 3, 0, "LATENT"⟩]

def forthAfter : Graph := echoForth.expandInstance forthDefinitions forthPlace forthGroup

theorem expandInstance_resettles_forth :
    echoForth.Wired ∧ echoForth.Ahead ∧ echoForth.FreeFor forthDefinitions forthGroup.config (.number 10) ∧
      forthDefinitions.HasRoom echoForth forthGroup ∧
      forthAfter.link? 1 = some ⟨1, .name "10:0", 0, .name "10:1", 0, "LATENT"⟩ ∧
      forthAfter.link? 2 = some ⟨2, .name "10:0", 0, .number 3, 0, "LATENT"⟩ ∧
      forthAfter.Wired ∧
      (∀ old ∈ echoForth.links, ∀ link, forthAfter.link? old.id = some link ↔
        Resettled forthDefinitions forthPlace forthGroup
          (echoForth.Emerges forthDefinitions forthPlace forthGroup (· > ·)) old link) ∧
      ∀ old ∈ echoForth.links, ∀ link, forthAfter.link? old.id = some link →
        Resettled forthDefinitions forthPlace forthGroup
          (echoForth.Emerges forthDefinitions forthPlace forthGroup fun _ _ => True) old link := by
  have wired : echoForth.Wired := by decide +kernel
  have ahead : echoForth.Ahead := by decide +kernel
  have known : forthDefinitions.group? "workflow/echo" = some forthGroup := by decide +kernel
  have free : echoForth.FreeFor forthDefinitions forthGroup.config (.number 10) := by decide +kernel
  have room : forthDefinitions.HasRoom echoForth forthGroup := by decide +kernel
  have present : forthPlace ∈ echoForth.nodes := by decide +kernel
  have resettles := expandInstance_resettles rfl echoForth wired ahead present known (by decide +kernel)
    (by decide +kernel) free (by decide +kernel) (by decide +kernel) room
  exact ⟨wired, ahead, free, room, by decide +kernel, by decide +kernel, resettles⟩

-- The same with the reroute first.
def backDefinitions : Definitions := echoDefinitions (echoConfig "Reroute" "Sampler")

def backGroup : GroupDef := backDefinitions.describe "echo" (echoConfig "Reroute" "Sampler")

def backPlace : Node := echoPlace (some 1) none 2 1

def echoBack : Graph := echo backPlace
  [⟨1, .number 10, 1, .number 10, 0, "LATENT"⟩, ⟨2, .number 10, 0, .number 3, 0, "LATENT"⟩]

def backAfter : Graph := echoBack.expandInstance backDefinitions backPlace backGroup

/-- A link is lost although going back from the output that it leaves leads, through a later output, to a member
that passes nothing on. -/
theorem expandInstance_loses_back :
    echoBack.Wired ∧ echoBack.Ahead ∧ backPlace ∈ echoBack.nodes ∧
      backDefinitions.group? backPlace.type = some backGroup ∧
      backDefinitions.registry.participation backPlace = .normal ∧
      (∃ old ∈ echoBack.links, old.id = 2 ∧ old.leavesData backPlace 0 ∧ old.target ≠ backPlace.id) ∧
      echoBack.Emerges backDefinitions backPlace backGroup (fun _ _ => True) 0
        ⟨.name "10:1", 0⟩ ∧
      backAfter.link? 2 = none := by
  have first : (echoBack.inputsMoved backDefinitions backPlace backGroup).resolvePassThrough
      backDefinitions.registry ⟨backPlace.id.member 0, .ofCount 0⟩ = some ⟨.number 10, 1⟩ := by
    decide +kernel
  have second : (echoBack.inputsMoved backDefinitions backPlace backGroup).resolvePassThrough
      backDefinitions.registry ⟨backPlace.id.member 1, .ofCount 0⟩ = some ⟨.name "10:1", 0⟩ := by
    decide +kernel
  obtain ⟨_, walk⟩ := resolvePassThrough_eq_some_iff.1 first
  obtain ⟨_, rest⟩ := resolvePassThrough_eq_some_iff.1 second
  have later : echoBack.Emerges backDefinitions backPlace backGroup (fun _ _ => True) 1
      ⟨.name "10:1", 0⟩ :=
    .directly 1 ⟨1, 0⟩ _ _ (by decide +kernel) (by decide +kernel) rest (by decide +kernel)
  refine ⟨by decide +kernel, by decide +kernel, by decide +kernel, by decide +kernel, by decide +kernel, ?_, ?_,
    by decide +kernel⟩
  · exact ⟨⟨2, .number 10, 0, .number 3, 0, "LATENT"⟩, by decide +kernel, rfl, ⟨0, by decide +kernel, rfl, rfl⟩,
      by decide +kernel⟩
  · exact .onward 0 1 ⟨0, 0⟩ _ ⟨.number 10, 1⟩ _ (by decide +kernel) (by decide +kernel) walk
      ⟨rfl, by decide +kernel⟩ trivial later

end Graph
end Patchbay
