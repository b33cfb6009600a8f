import Patchbay.Group.Expansion
import Patchbay.Proofs.Graph.Sound
import Patchbay.Proofs.Group.Exposure
import Patchbay.Proofs.Group.MemberIds

/-!
The first half of an expansion: the members of a group stand in the graph as nodes of their own, and the
links between them are added one after another. No two of these go to the same slot.
-/
set_option autoImplicit false

namespace Patchbay

-- Whether both ends of an inner link stand for placed members.
def Definitions.joins (defs : Definitions) (config : GroupConfig) (inner : GroupLink) : Bool :=
  inner.origin.any fun origin => defs.places config origin.toNat && defs.places config inner.target.toNat

theorem Definitions.joins_iff {defs : Definitions} {config : GroupConfig} {inner : GroupLink} :
    defs.joins config inner ↔
      ∃ origin, inner.origin = some origin ∧ defs.places config origin.toNat ∧ defs.places config inner.target.toNat := by
  simp only [joins, Option.any_eq_true, Bool.and_eq_true]

/-- The ids that a graph speaks of: those of its nodes and those at the ends of its links. -/
def Graph.Names (g : Graph) (id : NodeId) : Prop := id ∈ g.nodeIds ∨ ∃ link ∈ g.links, Graph.touches id link

instance (g : Graph) (id : NodeId) : Decidable (g.Names id) := inferInstanceAs (Decidable (_ ∨ _))

/-- Nothing in the graph has the id of a member that is to be placed. -/
def Graph.FreeFor (g : Graph) (defs : Definitions) (config : GroupConfig) (place : NodeId) : Prop :=
  ∀ k, defs.places config k → ¬ g.Names (place.member k)

/-! ### Placing the members -/

theorem passValue_eq (defs : Definitions) (given : List Widget) (op : Operation) (node : Node)
    (inner : MemberWidget) : ∃ widgets, passValue defs given op node inner = { node with widgets := widgets } := by
  rw [passValue]
  cases given.find? fun widget => widget.name == inner.exposed && !widget.value.isNull with
  | none => exact ⟨node.widgets, rfl⟩
  | some widget =>
    simp only [Node.setWidget?]
    cases WidgetSpec.indexOf? (op.layout defs.registry) inner.name with
    | none => exact ⟨node.widgets, rfl⟩
    | some index => exact ⟨_, rfl⟩

theorem foldl_passValue_eq (defs : Definitions) (given : List Widget) (op : Operation) (inner : List MemberWidget)
    (node : Node) : ∃ widgets, inner.foldl (passValue defs given op) node = { node with widgets := widgets } := by
  induction inner generalizing node with
  | nil => exact ⟨node.widgets, rfl⟩
  | cons first rest ih =>
    obtain ⟨widgets, passed⟩ := passValue_eq defs given op node first
    rw [List.foldl_cons, passed]
    exact ih { node with widgets := widgets }

theorem Definitions.getElem?_of_knownMembers {defs : Definitions} {config : GroupConfig} {member : Nat} {template : Node}
    (known : (member, template) ∈ defs.knownMembers config) : config.nodes[member]? = some template := by
  rw [knownMembers] at known
  obtain ⟨⟨found, index⟩, kept, same⟩ := List.mem_map.1 known
  cases same
  exact List.mk_mem_zipIdx_iff_getElem?.1 (List.mem_filter.1 kept).1

theorem Definitions.places_iff {defs : Definitions} {config : GroupConfig} {member : Nat} :
    defs.places config member ↔ ∃ template, (member, template) ∈ defs.knownMembers config := by
  simp only [places, knownMembers, Option.any_eq_true, List.mem_map, List.mem_filter, Prod.exists, Prod.mk.injEq]
  constructor
  · rintro ⟨template, there, known⟩
    exact ⟨template, template, member, ⟨List.mk_mem_zipIdx_iff_getElem?.2 there, known⟩, rfl, rfl⟩
  · rintro ⟨_, template, _, ⟨inside, known⟩, rfl, rfl⟩
    exact ⟨template, List.mk_mem_zipIdx_iff_getElem?.1 inside, known⟩

theorem Graph.freeFor_iff (g : Graph) (defs : Definitions) (config : GroupConfig) (place : NodeId) :
    g.FreeFor defs config place ↔ ∀ entry ∈ defs.knownMembers config, ¬ g.Names (place.member entry.1) := by
  constructor
  · exact fun free entry known => free entry.1 (Definitions.places_iff.2 ⟨entry.2, known⟩)
  · intro each k placed
    obtain ⟨template, known⟩ := Definitions.places_iff.1 placed
    exact each (k, template) known

instance (g : Graph) (defs : Definitions) (config : GroupConfig) (place : NodeId) :
    Decidable (g.FreeFor defs config place) := decidable_of_iff _ (g.freeFor_iff defs config place).symm

namespace GroupDef

section Placed

variable (group : GroupDef) (defs : Definitions) (place : Node)

-- But for the widgets a member is its template without links.
theorem placeMember_eq (member : Nat) (template : Node) : ∃ widgets, group.placeMember defs place member template =
    { template.unlinked with id := place.id.member member, widgets := widgets } := by
  simp only [placeMember]
  cases defs.operation? template.unlinked.type with
  | none => exact ⟨template.unlinked.widgets, rfl⟩
  | some op => exact foldl_passValue_eq defs _ op _ { template.unlinked with id := place.id.member member }

theorem mem_placedMembers {node : Node} (inside : node ∈ group.placedMembers defs place) :
    ∃ (member : Nat) (template : Node) (widgets : Option (List Json)),
      (member, template) ∈ defs.knownMembers group.config ∧ node =
        { template.unlinked with id := place.id.member member, widgets := widgets } := by
  rw [placedMembers] at inside
  obtain ⟨⟨member, template⟩, known, rfl⟩ := List.mem_map.1 inside
  obtain ⟨widgets, placed⟩ := group.placeMember_eq defs place member template
  exact ⟨member, template, widgets, known, placed⟩

theorem placedMembers_ids : (group.placedMembers defs place).map (·.id) =
    (defs.knownMembers group.config).map fun entry => place.id.member entry.1 := by
  rw [placedMembers, List.map_map]
  apply List.map_congr_left
  intro entry _
  obtain ⟨widgets, placed⟩ := group.placeMember_eq defs place entry.1 entry.2
  simp only [Function.comp, placed]

theorem knownMembers_distinct (config : GroupConfig) : ((defs.knownMembers config).map Prod.fst).Nodup := by
  rw [Definitions.knownMembers, List.map_map]
  exact (List.nodup_zipIdx_map_snd config.nodes).sublist (List.filter_sublist.map Prod.snd)

theorem placedMembers_displays : (((group.placedMembers defs place).map (·.id)).map NodeId.display).Nodup := by
  have members : (((group.placedMembers defs place).map (·.id)).map NodeId.display) =
      ((defs.knownMembers group.config).map Prod.fst).map fun index => (place.id.member index).display := by
    rw [placedMembers_ids, List.map_map, List.map_map]
    rfl
  rw [members]
  refine (knownMembers_distinct defs group.config).map ?_
  intro i j same
  exact place.id.member_injective (congrArg NodeId.name same)

theorem placedMembers_fresh {g : Graph} (free : g.FreeFor defs group.config place.id) :
    g.Fresh (group.placedMembers defs place) where
  distinct := (group.placedMembers_displays defs place).of_map _
  absent node inside := by
    obtain ⟨member, template, widgets, known, rfl⟩ := group.mem_placedMembers defs place inside
    exact fun old => free member (Definitions.places_iff.2 ⟨template, known⟩) (.inl old)
  unnamed node inside link linked := by
    obtain ⟨member, template, widgets, known, rfl⟩ := group.mem_placedMembers defs place inside
    rw [← Bool.not_eq_true]
    exact fun touched => free member (Definitions.places_iff.2 ⟨template, known⟩) (.inr ⟨link, linked, touched⟩)
  inputs node inside input slot := by
    obtain ⟨member, template, widgets, _, rfl⟩ := group.mem_placedMembers defs place inside
    obtain ⟨old, _, rfl⟩ := List.mem_map.1 slot
    rfl
  outputs node inside output slot := by
    obtain ⟨member, template, widgets, _, rfl⟩ := group.mem_placedMembers defs place inside
    obtain ⟨old, _, rfl⟩ := List.mem_map.1 slot
    rfl

theorem mem_roster_insertNodes {g : Graph} (distinct : g.nodeIds.Nodup)
    (free : g.FreeFor defs group.config place.id) (position : Nat) {entry : NodeId × String}
    (inside : entry ∈ (g.insertNodes position (group.placedMembers defs place)).roster) :
    entry ∈ g.roster ∨ ∃ k, entry.1 = place.id.member k := by
  rw [(group.placedMembers_fresh defs place free).insertNodes_eq position distinct] at inside
  obtain ⟨node, member, rfl⟩ := List.mem_map.1 inside
  rcases List.mem_append.1 ((g.spliced_perm position _).mem_iff.1 member) with new | old
  · obtain ⟨index, template, widgets, _, rfl⟩ := group.mem_placedMembers defs place new
    exact .inr ⟨index, rfl⟩
  · exact .inl (List.mem_map_of_mem old)

theorem freeFor_of_outside {g : Graph} (outside : ∀ id, g.Names id → ¬ place.id.IsUnder id) :
    g.FreeFor defs group.config place.id :=
  fun k _ named => outside _ named (place.id.isUnder_member k)

theorem displays_insertNodes {g : Graph} (displays : (g.nodeIds.map NodeId.display).Nodup)
    (outside : ∀ id, g.Names id → ¬ place.id.IsUnder id) (position : Nat) :
    (((g.insertNodes position (group.placedMembers defs place)).nodeIds).map NodeId.display).Nodup := by
  have fresh := group.placedMembers_fresh defs place (group.freeFor_of_outside defs place outside)
  have perm := ((g.spliced_perm position (group.placedMembers defs place)).map (·.id)).map NodeId.display
  rw [fresh.insertNodes_eq position (displays.of_map _)]
  refine perm.nodup_iff.2 ?_
  rw [List.map_append, List.map_append, List.nodup_append]
  refine ⟨group.placedMembers_displays defs place, displays, ?_⟩
  intro a memberA b memberB same
  obtain ⟨new, placed, rfl⟩ := List.mem_map.1 memberA
  obtain ⟨old, inside, rfl⟩ := List.mem_map.1 memberB
  obtain ⟨node, member, rfl⟩ := List.mem_map.1 placed
  obtain ⟨index, template, widgets, _, rfl⟩ := group.mem_placedMembers defs place member
  apply outside old (.inl inside)
  have under := place.id.isUnder_member index
  rw [NodeId.IsUnder] at under ⊢
  rw [← same]
  exact under

theorem shaped_insertNodes {g : Graph} (distinct : g.nodeIds.Nodup)
    (free : g.FreeFor defs group.config place.id) (position : Nat) (k slot : Nat)
    (placed : defs.places group.config k) (input : InputSlot)
    (found : (g.insertNodes position (group.placedMembers defs place)).inputAt? (place.id.member k) slot = some input) :
    ∃ template, group.config.nodes[k]? = some template ∧ slot < template.inputs.length := by
  have fresh := group.placedMembers_fresh defs place free
  rw [fresh.insertNodes_eq position distinct] at found
  have ids : ({ g with nodes := g.spliced position (group.placedMembers defs place) } : Graph).nodeIds.Nodup :=
    fresh.spliced_distinct position distinct
  obtain ⟨node, member, same, there⟩ := (Graph.inputAt?_eq_some_iff ids _ slot input).1 found
  rcases List.mem_append.1 ((g.spliced_perm position _).mem_iff.1 member) with new | old
  · obtain ⟨index, template, widgets, known, rfl⟩ := group.mem_placedMembers defs place new
    cases place.id.member_injective same
    refine ⟨template, Definitions.getElem?_of_knownMembers known, ?_⟩
    obtain ⟨bound, _⟩ := List.getElem?_eq_some_iff.1 there
    simpa [Node.unlinked] using bound
  · have named : g.Names node.id := .inl (List.mem_map_of_mem old)
    rw [same] at named
    exact absurd named (free k placed)

end Placed

end GroupDef

/-! ### The links between the members -/

namespace Graph

-- Where the links to members come from, once those of `done` are added and those of `rest` are not.
structure Linking (defs : Definitions) (config : GroupConfig) (place : NodeId) (named : NodeId → Prop)
    (roster : List (NodeId × String)) (done rest : List GroupLink) (g : Graph) : Prop where
  sound : Sound named roster g
  shaped : ∀ k slot, defs.places config k → ∀ input, g.inputAt? (place.member k) slot = some input →
    ∃ template, config.nodes[k]? = some template ∧ slot < template.inputs.length
  linked : ∀ link ∈ g.links, ∀ k, defs.places config k → link.target = place.member k →
    ∃ inner ∈ done, inner.origin.isSome ∧ inner.target.toNat = k ∧ inner.targetSlot = link.targetSlot
  room : g.nextLinkId.toNat + rest.countP (defs.joins config) < UInt64.size

section Linking

variable {defs : Definitions} {config : GroupConfig} {place : NodeId} {named : NodeId → Prop}
variable {roster : List (NodeId × String)}

variable (defs config place) in
theorem addInnerLink_eq (g : Graph) (inner : GroupLink) : ∃ origin slot type,
    addInnerLink defs config place g inner = if defs.joins config inner then
      g.allocate.2.insertLink ⟨g.nextLinkId, place.member origin, slot, place.member inner.target.toNat,
        inner.targetSlot, type⟩ else g := by
  rw [addInnerLink, Definitions.joins]
  cases inner.origin with
  | none => exact ⟨0, 0, "", rfl⟩
  | some origin => exact ⟨_, _, _, rfl⟩

-- An inner link that goes to the slot of one that was added already would be the second link there.
theorem Linking.clear {done rest : List GroupLink} {inner : GroupLink} {g : Graph}
    (linking : Linking defs config place named roster done (inner :: rest) g) (once : config.FeedsOnce)
    (split : config.links = done ++ inner :: rest) (joined : defs.joins config inner) (link : Link)
    (target : link.target = place.member inner.target.toNat) (slot : link.targetSlot = inner.targetSlot) :
    g.ClearFor link := by
  intro index input found here other member enters
  rw [target] at found enters
  have leaves : inner.origin.isSome := Option.isSome_of_any joined
  obtain ⟨_, _, _, placed⟩ := Definitions.joins_iff.1 joined
  obtain ⟨template, known, bound⟩ := linking.shaped _ index placed input found
  obtain ⟨previous, added, previousLeaves, sameTarget, sameSlot⟩ := linking.linked other member _ placed enters.1
  have few : (config.linksTo inner.target.toNat).countP (·.targetSlot.toNat == index) ≤ 1 :=
    once (template, inner.target.toNat) (List.mk_mem_zipIdx_iff_getElem?.2 known) index bound
  have previousSlot : previous.targetSlot.toNat = index := by
    rw [sameSlot]
    exact enters.2
  have innerSlot : inner.targetSlot.toNat = index := by
    rw [← slot]
    exact here
  rw [GroupConfig.linksTo, GroupConfig.innerLinks, split, List.filter_append, List.filter_append,
    List.countP_append] at few
  have before : 0 < ((done.filter (·.origin.isSome)).filter (·.target.toNat == inner.target.toNat)).countP
      (·.targetSlot.toNat == index) := by
    rw [List.countP_pos_iff]
    refine ⟨previous, List.mem_filter.2 ⟨List.mem_filter.2 ⟨added, previousLeaves⟩, ?_⟩, ?_⟩
    · rw [sameTarget, beq_self_eq_true]
    · rw [previousSlot, beq_self_eq_true]
  have after : 0 < (((inner :: rest).filter (·.origin.isSome)).filter
      (·.target.toNat == inner.target.toNat)).countP (·.targetSlot.toNat == index) := by
    rw [List.countP_pos_iff]
    refine ⟨inner, List.mem_filter.2 ⟨List.mem_filter.2 ⟨List.mem_cons_self, leaves⟩, ?_⟩, ?_⟩
    · rw [beq_self_eq_true]
    · rw [innerSlot, beq_self_eq_true]
  omega

theorem Linking.step {done rest : List GroupLink} {inner : GroupLink} {g : Graph}
    (linking : Linking defs config place named roster done (inner :: rest) g) (once : config.FeedsOnce)
    (split : config.links = done ++ inner :: rest) (members : ∀ k, named (place.member k)) :
    Linking defs config place named roster (done ++ [inner]) rest (addInnerLink defs config place g inner) := by
  obtain ⟨origin, slot, type, added⟩ := addInnerLink_eq defs config place g inner
  have room := linking.room
  rw [List.countP_cons] at room
  by_cases joined : defs.joins config inner
  · rw [if_pos joined] at added
    rw [if_pos joined] at room
    have leaves : inner.origin.isSome := Option.isSome_of_any joined
    have clear := linking.clear once split joined
      ⟨g.nextLinkId, place.member origin, slot, place.member inner.target.toNat, inner.targetSlot, type⟩ rfl rfl
    obtain ⟨sound, next⟩ := linking.sound.addLink rfl (by omega) clear (members _) (members _)
    have wired := linking.sound.wired.allocate
    rw [added]
    refine ⟨sound, ?_, ?_, by omega⟩
    · intro k index placed input found
      have before : (g.allocate.2.inputAt? (place.member k) index).isSome := by
        rw [← wired.isSome_inputAt?_insertLink, found]
        rfl
      obtain ⟨old, foundOld⟩ := Option.isSome_iff_exists.1 before
      exact linking.shaped k index placed old foundOld
    · intro link member k placed target
      rcases (wired.mem_insertLink _ link).1 member with rfl | ⟨old, _⟩
      · exact ⟨inner, List.mem_append_right _ List.mem_cons_self, leaves, place.member_injective target, rfl⟩
      · obtain ⟨previous, inside, facts⟩ := linking.linked link old k placed target
        exact ⟨previous, List.mem_append_left _ inside, facts⟩
  · rw [if_neg joined] at added
    rw [if_neg joined] at room
    rw [added]
    refine ⟨linking.sound, linking.shaped, ?_, by omega⟩
    intro link member k placed target
    obtain ⟨previous, inside, facts⟩ := linking.linked link member k placed target
    exact ⟨previous, List.mem_append_left _ inside, facts⟩

theorem Linking.run {done rest : List GroupLink} {g : Graph}
    (linking : Linking defs config place named roster done rest g) (once : config.FeedsOnce)
    (split : config.links = done ++ rest) (members : ∀ k, named (place.member k)) :
    Linking defs config place named roster config.links [] (rest.foldl (addInnerLink defs config place) g) := by
  induction rest generalizing done g with
  | nil =>
    rw [List.append_nil] at split
    rw [split]
    exact linking
  | cons inner rest ih =>
    have split' : config.links = (done ++ [inner]) ++ rest := by
      rw [split, List.append_assoc]
      rfl
    exact ih (linking.step once split members) split'

-- Whatever link goes to a member by then, the config feeds its slot.
theorem Linking.fed {g : Graph} (linking : Linking defs config place named roster config.links [] g) (link : Link)
    (member : link ∈ g.links) (k : Nat) (placed : defs.places config k) (target : link.target = place.member k) :
    config.feeds k link.targetSlot.toNat = true := by
  obtain ⟨inner, inside, leaves, sameTarget, sameSlot⟩ := linking.linked link member k placed target
  rw [GroupConfig.feeds, GroupConfig.linksTo, GroupConfig.innerLinks, List.any_eq_true]
  refine ⟨inner, List.mem_filter.2 ⟨List.mem_filter.2 ⟨inside, leaves⟩, ?_⟩, ?_⟩
  · rw [sameTarget, beq_self_eq_true]
  · rw [sameSlot, beq_self_eq_true]

end Linking

end Graph
end Patchbay
