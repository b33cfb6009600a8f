import Patchbay.Proofs.Graph.Forwards
import Patchbay.Proofs.Group.Stages

/-!
What the replacement of an instance does to the graph, link by link and node by node. The links at its data
slots go to the members that the slots stand for, those between members are added, and all others stay.
-/
set_option autoImplicit false

namespace Patchbay
namespace Graph

/-! ### Upstream of the members -/

section Upstream

variable (g : Graph) (defs : Definitions) (place : Node) (group : GroupDef)

-- The node is another one than the instance and does not pass on what comes from it.
def Unreached (id : NodeId) : Prop :=
  id ≠ place.id ∧ ((g.inputsMoved defs place group).passes defs.registry id →
    ¬ (g.inputsMoved defs place group).Leads defs.registry place.id id)

variable {g defs place group}

-- Going back from such a node along a link leads to another one.
theorem Unreached.origin {link : Link} (member : link ∈ (g.inputsMoved defs place group).links)
    (apart : g.Unreached defs place group link.target)
    (passing : (g.inputsMoved defs place group).passes defs.registry link.target) :
    g.Unreached defs place group link.origin := by
  constructor
  · intro leaves
    exact apart.2 passing (.link link member leaves)
  · intro through leads
    exact apart.2 passing (.through link leads through member)

theorem bare_node?_inputsMoved {id : NodeId} (other : ∀ k, defs.places group.config k → id ≠ place.id.member k) :
    ((g.inputsMoved defs place group).node? id).map (·.unlinked) = (g.node? id).map (·.unlinked) := by
  have distinct : ((group.placedMembers defs place).map (·.id)).Nodup :=
    (group.placedMembers_displays defs place).of_map _
  have absent : (group.placedMembers defs place).find? (·.id == id) = none := by
    rw [List.find?_eq_none]
    intro node member
    obtain ⟨k, template, widgets, known, rfl⟩ := group.mem_placedMembers defs place member
    simpa using (other k (Definitions.places_iff.2 ⟨template, known⟩)).symm
  rw [bare_node?, bare_inputsMoved, ← bare_node?, membersPlaced, node?_insertNodes _ _ _ distinct, absent,
    Option.none_or]

variable (prepared : g.Prepared defs place group)

include prepared in
-- The links that were added or moved are no part of a chain that starts at the instance.
theorem Prepared.leads_of_inputsMoved {id : NodeId}
    (leads : (g.inputsMoved defs place group).Leads defs.registry place.id id) :
    g.Leads defs.registry place.id id := by
  induction leads with
  | link link member leaves =>
    rcases (prepared.mem_inputsMoved link).1 member with (⟨original, _⟩ | added) | ⟨index, old, original, enters, made⟩
    · exact .link link original leaves
    · obtain ⟨⟨k, _, origin⟩, _⟩ := added.ends
      exact absurd (origin.symm.trans leaves) (NodeId.member_ne_self place.id k)
    · obtain ⟨inner, _, rfl⟩ := Option.map_eq_some_iff.1 made
      exact absurd enters.target (prepared.target_ne original leaves)
  | through link before passing member ih =>
    have foreign : ∀ k, defs.places group.config k → link.origin ≠ place.id.member k := by
      intro k placed same
      obtain ⟨earlier, original, target⟩ := ih.exists_link
      exact (prepared.ends_ne original placed).2 (target.trans same)
    have passed : g.passes defs.registry link.origin :=
      (passes_congr (bare_node?_inputsMoved foreign)).symm.trans passing
    rcases (prepared.mem_inputsMoved link).1 member with (⟨original, _⟩ | added) | ⟨index, old, original, enters, made⟩
    · exact .through link ih passed original
    · obtain ⟨⟨k, placed, origin⟩, _⟩ := added.ends
      exact absurd origin (foreign k placed)
    · obtain ⟨inner, _, rfl⟩ := Option.map_eq_some_iff.1 made
      have back := Leads.through old ih passed original
      rw [enters.target] at back
      exact absurd back prepared.noReturn

include prepared in
theorem Prepared.unreached_member {k : Nat} (placed : defs.places group.config k) :
    g.Unreached defs place group (place.id.member k) := by
  refine ⟨place.id.member_ne_self k, fun _ leads => ?_⟩
  obtain ⟨link, original, target⟩ := (prepared.leads_of_inputsMoved leads).exists_link
  exact (prepared.ends_ne original placed).2 target

end Upstream

/-! ### Links out of the instance -/

section Outputs

variable (g : Graph) (defs : Definitions) (place : Node) (group : GroupDef)

-- The producer behind the member output that an output of the instance stands for.
def exposedProducer (index : Nat) : Option Producer :=
  ((group.exposure.outputs[index]?).filter (defs.places group.config ·.member)).bind fun inner =>
    (g.inputsMoved defs place group).resolvePassThrough defs.registry
      ⟨place.id.member inner.member, .ofCount inner.slot⟩

-- While links out of the instance are moved nothing changes upstream of the members.
structure Leaving (h : Graph) : Prop where
  sound : Sound (g.NamesOrMember place.id) (g.membersPlaced defs place group).roster h
  bare : h.bare = (g.inputsMoved defs place group).bare
  links : ∀ link, g.Unreached defs place group link.target →
    (g.inputsMoved defs place group).passes defs.registry link.target →
    (link ∈ (g.inputsMoved defs place group).links ↔ link ∈ h.links)
  held : ∀ index, ∀ link ∈ h.links, (index, link.id) ∈ place.heldOutputs → g.Unreached defs place group link.target →
    ¬ (g.inputsMoved defs place group).passes defs.registry link.target

variable {g defs place group}

theorem Leaving.alike {h : Graph} (leaving : g.Leaving defs place group h) :
    AlikeInside (g.Unreached defs place group) defs.registry (g.inputsMoved defs place group) h where
  nodes id _ := by rw [bare_node?, bare_node?, leaving.bare]
  links := leaving.links
  closed _ := Unreached.origin

variable (prepared : g.Prepared defs place group)

include prepared in
-- A link that leaves the instance does not enter it, so it has not been moved before.
theorem Prepared.leaves_inputsMoved {link : Link} (member : link ∈ g.links) {index : Nat}
    (leaves : link.leavesData place index) : link ∈ (g.inputsMoved defs place group).links := by
  refine (prepared.mem_inputsMoved link).2 (.inl (.inl ⟨member, fun _ enters => ?_⟩))
  exact prepared.target_ne member leaves.origin enters.target

include prepared in
theorem Prepared.leaving_inputsMoved : g.Leaving defs place group (g.inputsMoved defs place group) where
  sound := prepared.sound_inputsMoved
  bare := rfl
  links _ _ _ := Iff.rfl
  held index link member listed apart passing := by
    obtain ⟨twin, original, same, leaves⟩ :=
      (prepared.wired.mem_heldOutputs prepared.present prepared.lead index link.id).1 listed
    have there := prepared.leaves_inputsMoved original leaves
    rw [prepared.sound_inputsMoved.wired.link_unique there member same] at leaves
    exact (Unreached.origin member apart passing).1 leaves.origin

include prepared in
theorem Leaving.producer_eq {h : Graph} (leaving : g.Leaving defs place group h) (index : Nat) :
    (((group.exposure.outputs[index]?).filter (defs.places group.config ·.member)).bind fun inner =>
      h.resolvePassThrough defs.registry ⟨place.id.member inner.member, .ofCount inner.slot⟩) =
        g.exposedProducer defs place group index := by
  rw [exposedProducer]
  cases exposed : (group.exposure.outputs[index]?).filter (defs.places group.config ·.member) with
  | none => rfl
  | some inner =>
    have placed := (Option.filter_eq_some_iff.1 exposed).2
    exact (leaving.alike.resolvePassThrough_eq prepared.sound_inputsMoved.wired leaving.sound.wired
      (prepared.unreached_member placed)).symm

include prepared in
theorem Leaving.moveOrigin {h : Graph} (leaving : g.Leaving defs place group h) {index : Nat} {id : LinkId}
    (listed : (index, id) ∈ place.heldOutputs) :
    g.Leaving defs place group (Graph.moveOrigin (g.exposedProducer defs place group index) h id) := by
  have known : ∀ source ∈ g.exposedProducer defs place group index, g.NamesOrMember place.id source.node := by
    intro source found
    obtain ⟨inner, _, resolved⟩ := Option.bind_eq_some_iff.1 found
    exact prepared.sound_inputsMoved.behindPassThrough defs.registry _ _ source (.inr ⟨inner.member, rfl⟩) resolved
  have rerouted := mem_reroute leaving.sound.wired.linkIds
    (id, outputChange (g.exposedProducer defs place group index)) (outputChange_keepsId _)
  rw [← moveOrigin_eq] at rerouted
  refine ⟨leaving.sound.moveOrigin _ known id, (bare_moveOrigin _ h id).trans leaving.bare, ?_, ?_⟩
  · intro link apart passing
    rw [leaving.links link apart passing, rerouted]
    constructor
    · intro member
      refine .inl ⟨member, ?_⟩
      rintro rfl
      exact leaving.held index link member listed apart passing
    · rintro (⟨member, _⟩ | ⟨old, member, rfl, made⟩)
      · exact member
      · obtain ⟨source, _, rfl⟩ := Option.map_eq_some_iff.1 made
        exact absurd passing (leaving.held index old member listed apart)
  · intro other link member listed' apart
    rcases (rerouted link).1 member with ⟨before, _⟩ | ⟨old, before, _, made⟩
    · exact leaving.held other link before listed' apart
    · obtain ⟨source, _, rfl⟩ := Option.map_eq_some_iff.1 made
      exact leaving.held other old before listed' apart

include prepared in
theorem Leaving.foldl_moveOrigin {h : Graph} (leaving : g.Leaving defs place group h) {index : Nat} (ids : List LinkId)
    (listed : ∀ id ∈ ids, (index, id) ∈ place.heldOutputs) :
    g.Leaving defs place group (ids.foldl (Graph.moveOrigin (g.exposedProducer defs place group index)) h) := by
  induction ids generalizing h with
  | nil => exact leaving
  | cons id rest ih =>
    exact ih (leaving.moveOrigin prepared (listed id List.mem_cons_self))
      fun later inside => listed later (List.mem_cons_of_mem _ inside)

include prepared in
-- The walks all end as they would have before the first of these links was moved.
theorem Leaving.foldl_moveOutput {h : Graph} (leaving : g.Leaving defs place group h)
    (entries : List (OutputSlot × Nat))
    (listed : ∀ entry ∈ entries, ∀ id ∈ entry.1.linkIds, (entry.2, id) ∈ place.heldOutputs) :
    entries.foldl (Graph.moveOutput defs group place.id) h =
        entries.foldl (fun h entry => entry.1.linkIds.foldl
          (Graph.moveOrigin (g.exposedProducer defs place group entry.2)) h) h ∧
      g.Leaving defs place group (entries.foldl (Graph.moveOutput defs group place.id) h) := by
  induction entries generalizing h with
  | nil => exact ⟨rfl, leaving⟩
  | cons entry rest ih =>
    have moved := leaving.foldl_moveOrigin prepared entry.1.linkIds (listed entry List.mem_cons_self)
    have later := ih moved fun next inside => listed next (List.mem_cons_of_mem _ inside)
    rw [List.foldl_cons, List.foldl_cons, Graph.moveOutput, leaving.producer_eq prepared]
    exact later

include prepared in
theorem Prepared.outputsMoved_eq : g.outputsMoved defs place group =
      place.heldOutputs.foldl (rerouteHeld fun index => outputChange (g.exposedProducer defs place group index))
        (g.inputsMoved defs place group) ∧ g.Leaving defs place group (g.outputsMoved defs place group) := by
  obtain ⟨same, leaving⟩ := prepared.leaving_inputsMoved.foldl_moveOutput prepared
    ((place.outputs.drop place.flowOutputCount).zipIdx) fun entry inside id holds =>
      mem_held.2 ⟨entry.1, List.mk_mem_zipIdx_iff_getElem?.1 inside, holds⟩
  refine ⟨?_, leaving⟩
  have steps : ∀ producer, Graph.moveOrigin producer = fun h id => h.reroute (id, outputChange producer) :=
    fun producer => funext₂ (moveOrigin_eq producer)
  rw [outputsMoved, same, Node.heldOutputs, ← foldl_rerouteHeld]
  simp only [steps]

include prepared in
theorem Prepared.mem_outputsMoved (other : Link) : other ∈ (g.outputsMoved defs place group).links ↔
    (other ∈ (g.inputsMoved defs place group).links ∧ ∀ index, ¬ (other ∈ g.links ∧ other.leavesData place index)) ∨
      ∃ index, ∃ link ∈ g.links, link.leavesData place index ∧
        outputChange (g.exposedProducer defs place group index) link = some other := by
  rw [prepared.outputsMoved_eq.1]
  exact mem_foldl_rerouteHeld_of_kept prepared.sound_inputsMoved.wired.linkIds
    (prepared.wired.heldOutputs_distinct prepared.present)
    (prepared.wired.mem_heldOutputs prepared.present prepared.lead)
    (fun link member index leaves => prepared.leaves_inputsMoved member leaves)
    (fun index => outputChange_keepsId _) other

end Outputs

/-! ### The graph with the members in place of the instance -/

/-- What becomes of a link when an instance is replaced. One that no case speaks of is removed. -/
inductive Rewired (defs : Definitions) (place : Node) (group : GroupDef) (after : Graph) : Link → Link → Prop
  | kept (link : Link) (apart : touches place.id link = false) : Rewired defs place group after link link
  | input (link : Link) (index : Nat) (inner : MemberSlot) (enters : link.entersData place index)
      (exposed : group.exposure.inputTarget? index = some inner) (placed : defs.places group.config inner.member) :
      Rewired defs place group after link
        { link with target := place.id.member inner.member, targetSlot := .ofCount inner.slot }
  | output (link : Link) (index : Nat) (inner : MemberSlot) (steps : Nat) (source : Producer)
      (leaves : link.leavesData place index) (exposed : group.exposure.outputs[index]? = some inner)
      (placed : defs.places group.config inner.member)
      (walk : after.Forwards defs.registry steps ⟨place.id.member inner.member, .ofCount inner.slot⟩ source) :
      Rewired defs place group after link { link with origin := source.node, originSlot := source.slot }

theorem Rewired.sameId {defs : Definitions} {place : Node} {group : GroupDef} {after : Graph} {old link : Link}
    (rewired : Rewired defs place group after old link) : link.id = old.id := by
  cases rewired <;> rfl

section Replaced

variable {g : Graph} {defs : Definitions} {place : Node} {group : GroupDef}
variable (prepared : g.Prepared defs place group)

include prepared in
theorem Prepared.alike_expandInstance : AlikeInside (g.Unreached defs place group) defs.registry
    (g.inputsMoved defs place group) (g.expandInstance defs place group) where
  nodes id apart := by
    rw [expandInstance_eq, bare_node?_removeNode _ apart.1]
    exact prepared.outputsMoved_eq.2.alike.nodes id apart
  links link apart passing := by
    rw [prepared.mem_removeInstance, prepared.outputsMoved_eq.2.links link apart passing]
    refine (and_iff_left_of_imp fun member => (touches_eq_false_iff _ _).2 ⟨?_, apart.1⟩).symm
    have before := (prepared.outputsMoved_eq.2.links link apart passing).2 member
    exact (Unreached.origin before apart passing).1
  closed _ := Unreached.origin

include prepared in
theorem Prepared.exposedProducer_eq_some_iff (index : Nat) (source : Producer) :
    g.exposedProducer defs place group index = some source ↔
      ∃ inner, group.exposure.outputs[index]? = some inner ∧ defs.places group.config inner.member ∧
        ∃ steps, (g.expandInstance defs place group).Forwards defs.registry steps
          ⟨place.id.member inner.member, .ofCount inner.slot⟩ source := by
  rw [exposedProducer, Option.bind_eq_some_iff]
  refine exists_congr fun inner => ?_
  rw [Option.filter_eq_some_iff, and_assoc]
  refine and_congr_right fun _ => and_congr_right fun placed => ?_
  rw [prepared.alike_expandInstance.resolvePassThrough_eq prepared.sound_inputsMoved.wired
    prepared.wired_expandInstance (prepared.unreached_member placed), resolvePassThrough_eq_some_iff]

include prepared in
theorem Prepared.source_ne {inner : MemberSlot} (placed : defs.places group.config inner.member) {steps : Nat}
    {source : Producer} (walk : (g.expandInstance defs place group).Forwards defs.registry steps
      ⟨place.id.member inner.member, .ofCount inner.slot⟩ source) : source.node ≠ place.id :=
  (walk.stays_inside prepared.wired_expandInstance prepared.alike_expandInstance.symm
    (prepared.unreached_member placed)).1

include prepared in
theorem Prepared.mem_expandInstance (other : Link) : other ∈ (g.expandInstance defs place group).links ↔
    (∃ old ∈ g.links, Rewired defs place group (g.expandInstance defs place group) old other) ∨
      defs.Adds group.config place.id g.nextLinkId group.config.links other := by
  rw [prepared.mem_removeInstance, prepared.mem_outputsMoved, prepared.mem_inputsMoved]
  constructor
  · rintro ⟨⟨((⟨original, _⟩ | added) | ⟨index, old, original, enters, made⟩), _⟩ |
      ⟨index, old, original, leaves, made⟩, apart⟩
    · exact .inl ⟨other, original, .kept other apart⟩
    · exact .inr added
    · obtain ⟨inner, exposed, placed, rfl⟩ := (inputChange_eq_some_iff ..).1 made
      exact .inl ⟨old, original, .input old index inner enters exposed placed⟩
    · obtain ⟨source, produced, rfl⟩ := Option.map_eq_some_iff.1 made
      obtain ⟨inner, exposed, placed, steps, walk⟩ := (prepared.exposedProducer_eq_some_iff index source).1 produced
      exact .inl ⟨old, original, .output old index inner steps source leaves exposed placed walk⟩
  · rintro (⟨old, original, rewired⟩ | added)
    · cases rewired with
      | kept apart =>
        obtain ⟨origin, target⟩ := (touches_eq_false_iff _ _).1 apart
        refine ⟨.inl ⟨.inl (.inl ⟨original, ?_⟩), ?_⟩, apart⟩
        · exact fun _ enters => target enters.target
        · exact fun _ leaves => origin leaves.2.origin
      | input index inner enters exposed placed =>
        have made := (inputChange_eq_some_iff defs group place.id old).2 ⟨inner, exposed, placed, rfl⟩
        refine ⟨.inl ⟨.inr ⟨index, old, original, enters, made⟩, ?_⟩, (touches_eq_false_iff _ _).2 ⟨?_, ?_⟩⟩
        · rintro _ ⟨there, _⟩
          exact (prepared.ends_ne there placed).2 rfl
        · exact fun leaves => prepared.target_ne original leaves enters.target
        · exact place.id.member_ne_self inner.member
      | output index inner steps source leaves exposed placed walk =>
        have produced := (prepared.exposedProducer_eq_some_iff index source).2 ⟨inner, exposed, placed, steps, walk⟩
        have made := outputChange_of_eq produced old
        have stays := prepared.target_ne original leaves.origin
        exact ⟨.inr ⟨index, old, original, leaves, made⟩,
          (touches_eq_false_iff _ _).2 ⟨prepared.source_ne placed walk, stays⟩⟩
    · obtain ⟨⟨i, _, origin⟩, j, _, target⟩ := added.ends
      refine ⟨.inl ⟨.inl (.inr added), fun index there => prepared.not_adds there.1 added⟩, ?_⟩
      rw [touches_eq_false_iff, origin, target]
      exact ⟨place.id.member_ne_self i, place.id.member_ne_self j⟩

include prepared in
theorem Prepared.nodes_expandInstance {before behind : List Node} (split : g.nodes = before ++ place :: behind) :
    (g.expandInstance defs place group).nodes.map (·.unlinked) =
      (before ++ group.placedMembers defs place ++ behind).map (·.unlinked) := by
  have distinct := prepared.wired.nodeIds
  rw [nodeIds, split, List.map_append, List.map_cons, List.nodup_append, List.nodup_cons] at distinct
  obtain ⟨_, ⟨notBehind, _⟩, notBefore⟩ := distinct
  have others : ∀ node ∈ before ++ group.placedMembers defs place ++ behind, node.id ≠ place.id := by
    intro node member same
    rcases List.mem_append.1 member with front | back
    · rcases List.mem_append.1 front with earlier | new
      · exact notBefore _ (List.mem_map_of_mem earlier) _ List.mem_cons_self same
      · obtain ⟨k, _, _, _, rfl⟩ := group.mem_placedMembers defs place new
        exact place.id.member_ne_self k same
    · exact notBehind (same ▸ List.mem_map_of_mem back)
  have position : g.position? place.id = some before.length := by
    have none : before.findIdx? (·.id == place.id) = none := by
      rw [List.findIdx?_eq_none_iff]
      intro node member
      simpa using others node (List.mem_append_left _ (List.mem_append_left _ member))
    rw [position?, split, List.findIdx?_append, none, List.findIdx?_cons]
    simp
  have nodes : (g.insertNodes before.length (group.placedMembers defs place)).nodes =
      before ++ group.placedMembers defs place ++ place :: behind := by
    rw [(group.placedMembers_fresh defs place prepared.free).insertNodes_eq _ prepared.wired.nodeIds]
    simp [spliced, split]
  have bare := g.bare_expandInstance defs place group
  rw [position, Option.getD_some, Graph.bare, Graph.bare, nodes, List.filter_map] at bare
  rw [bare, List.filter_append, List.filter_cons_of_neg (by simp [Node.unlinked]), ← List.filter_append]
  congr 1
  rw [List.filter_eq_self]
  intro node member
  simpa [Node.unlinked] using others node member

end Replaced

/-- Replacing an instance changes what its group says and nothing else. Its members of known types stand in
its place; under the ids of the graph there are the links that its links were rewired to; and the links under
new ids are those between the members. -/
theorem expandInstance_rewires {defs : Definitions} {r : Registry} {configs : Table GroupConfig}
    (made : defs = Definitions.withGroups r configs) (g : Graph) (wired : g.Wired) (ahead : g.Ahead)
    {before behind : List Node} {place : Node} (split : g.nodes = before ++ place :: behind) {group : GroupDef}
    (known : defs.group? place.type = some group) (lead : place.flowSlotsLead = true)
    (free : g.FreeFor defs group.config place.id) (fits : group.SlotsFit) (once : group.config.FeedsOnce)
    (room : defs.HasRoom g group) (noReturn : ¬ g.Leads defs.registry place.id place.id) :
    (g.expandInstance defs place group).nodes.map (·.unlinked) =
        (before ++ group.placedMembers defs place ++ behind).map (·.unlinked) ∧
      (g.expandInstance defs place group).Wired ∧
      (∀ old ∈ g.links, ∀ link, (g.expandInstance defs place group).link? old.id = some link ↔
        Rewired defs place group (g.expandInstance defs place group) old link) ∧
      ∀ link, (link ∈ (g.expandInstance defs place group).links ∧ ∀ old ∈ g.links, old.id ≠ link.id) ↔
        defs.Adds group.config place.id g.nextLinkId group.config.links link := by
  have exposes : group.Exposes := by
    have member := Definitions.mem_values_of_group? known
    rw [made] at member
    exact Definitions.withGroups_exposes r configs group member
  have present : place ∈ g.nodes := by simp [split]
  have prepared : g.Prepared defs place group :=
    ⟨⟨wired, ahead, present, lead, free, exposes, fits, once, room⟩, noReturn⟩
  have after := prepared.wired_expandInstance
  refine ⟨prepared.nodes_expandInstance split, after, fun old original link => ?_, fun link => ?_⟩
  · rw [after.link?_eq_some_iff, prepared.mem_expandInstance]
    constructor
    · rintro ⟨⟨other, inside, rewired⟩ | added, same⟩
      · rw [wired.link_unique original inside (same.symm.trans rewired.sameId)]
        exact rewired
      · exact absurd same.symm (prepared.id_ne_of_adds original added)
    · exact fun rewired => ⟨.inl ⟨old, original, rewired⟩, rewired.sameId⟩
  · rw [prepared.mem_expandInstance]
    constructor
    · rintro ⟨⟨old, original, rewired⟩ | added, new⟩
      · exact absurd rewired.sameId.symm (new old original)
      · exact added
    · exact fun added => ⟨.inr added, fun old original => prepared.id_ne_of_adds original added⟩

theorem nested_noReturn : ¬ nested.Leads nestedDefinitions.registry (.number 3) (.number 3) := by
  intro leads
  have inside := leads.mem_of_closed [.number 2] (by decide +kernel) (by decide +kernel)
  revert inside
  decide +kernel

-- The link out of the instance comes from a reroute inside, so it starts at the member behind that.
theorem expandInstance_rewires_nested :
    nested.Wired ∧ nested.Ahead ∧
      nested.FreeFor nestedDefinitions (nestedDefinitions.describe "outer" outerConfig).config (.number 3) ∧
      nestedDefinitions.HasRoom nested (nestedDefinitions.describe "outer" outerConfig) ∧
      ¬ nested.Leads nestedDefinitions.registry (.number 3) (.number 3) ∧
      nestedOnce.link? 1 = some ⟨1, .number 1, 0, .name "3:0", 0, "LATENT"⟩ ∧
      nestedOnce.link? 2 = some ⟨2, .name "3:1", 0, .number 2, 0, "LATENT"⟩ ∧
      nestedOnce.Wired ∧
      (∀ old ∈ nested.links, ∀ link, nestedOnce.link? old.id = some link ↔
        Rewired nestedDefinitions (chained (.number 3) "workflow/outer" (some 1) (some [2]))
          (nestedDefinitions.describe "outer" outerConfig) nestedOnce old link) ∧
      ∀ link, (link ∈ nestedOnce.links ∧ ∀ old ∈ nested.links, old.id ≠ link.id) ↔
        nestedDefinitions.Adds (nestedDefinitions.describe "outer" outerConfig).config (.number 3) 3
          (nestedDefinitions.describe "outer" outerConfig).config.links link := by
  have wired : nested.Wired := by decide +kernel
  have ahead : nested.Ahead := by decide +kernel
  have split : nested.nodes = [chained (.number 1) "Sampler" none (some [1])] ++
      chained (.number 3) "workflow/outer" (some 1) (some [2]) :: [chained (.number 2) "Sampler" (some 2) none,
        { chained (.number 4) "workflow/pair" none none with mode := .muted }] := rfl
  have known : nestedDefinitions.group? "workflow/outer" = some (nestedDefinitions.describe "outer" outerConfig) := by
    decide +kernel
  have free : nested.FreeFor nestedDefinitions (nestedDefinitions.describe "outer" outerConfig).config
      (.number 3) := by decide +kernel
  have fits : (nestedDefinitions.describe "outer" outerConfig).SlotsFit := by decide +kernel
  have once : (nestedDefinitions.describe "outer" outerConfig).config.FeedsOnce := by decide +kernel
  have room : nestedDefinitions.HasRoom nested (nestedDefinitions.describe "outer" outerConfig) := by decide +kernel
  have rewires := expandInstance_rewires rfl nested wired ahead split known (by decide +kernel) free fits once room
    nested_noReturn
  exact ⟨wired, ahead, free, room, nested_noReturn, by decide +kernel, by decide +kernel, rewires.2⟩

end Graph
end Patchbay
