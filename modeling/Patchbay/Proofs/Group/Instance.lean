import Patchbay.Proofs.Group.Members

/-!
The second half of an expansion: the links into the instance go to the member slots that its inputs stand
for, those out of it start at members, and the instance is removed.
-/
set_option autoImplicit false

namespace Patchbay

/-- Slot numbers are 64-bit words, those that the inputs of the group stand for as well. -/
def GroupDef.SlotsFit (group : GroupDef) : Prop := ∀ inner ∈ group.exposure.inputs, inner.slot < UInt64.size

instance (group : GroupDef) : Decidable group.SlotsFit := inferInstanceAs (Decidable (∀ _ ∈ _, _))

namespace Graph

/-! ### Links into the instance -/

-- No link goes yet to the member slots that the inputs of `rest` stand for.
structure Feeding (defs : Definitions) (group : GroupDef) (place : NodeId) (named : NodeId → Prop) (roster : List (NodeId × String))
    (rest : List (InputSlot × Nat)) (g : Graph) : Prop where
  sound : Sound named roster g
  vacant : ∀ entry ∈ rest, ∀ inner, group.exposure.inputTarget? entry.2 = some inner →
    defs.places group.config inner.member → ∀ link ∈ g.links, ¬ link.entersAt (place.member inner.member) inner.slot

section Feeding

variable {defs : Definitions} {group : GroupDef} {place : NodeId} {named : NodeId → Prop}
variable {roster : List (NodeId × String)}

theorem Feeding.removeLink {rest : List (InputSlot × Nat)} {g : Graph}
    (feeding : Feeding defs group place named roster rest g) (id : LinkId) :
    Feeding defs group place named roster rest (g.removeLink id) where
  sound := feeding.sound.removeLink id
  vacant entry inside inner exposed placed link member :=
    feeding.vacant entry inside inner exposed placed link ((g.mem_removeLink id link).1 member).1

theorem Feeding.tail {entry : InputSlot × Nat} {rest : List (InputSlot × Nat)} {g : Graph}
    (feeding : Feeding defs group place named roster (entry :: rest) g) : Feeding defs group place named roster rest g where
  sound := feeding.sound
  vacant other inside := feeding.vacant other (List.mem_cons_of_mem _ inside)

-- The link that moves comes to a vacant slot, and to none that a later input stands for.
theorem Feeding.moveLink {entry : InputSlot × Nat} {rest : List (InputSlot × Nat)} {g : Graph}
    (feeding : Feeding defs group place named roster (entry :: rest) g) (exposes : group.Exposes) (fits : group.SlotsFit)
    (positions : ∀ later ∈ rest, later.2 ≠ entry.2) (members : ∀ k, named (place.member k)) {link : Link}
    (member : link ∈ g.links) {inner : MemberSlot} (exposed : group.exposure.inputTarget? entry.2 = some inner)
    (placed : defs.places group.config inner.member) :
    Feeding defs group place named roster rest (g.insertLink { link with
      target := place.member inner.member
      targetSlot := .ofCount inner.slot }) := by
  have fit : (Word.ofCount inner.slot).toNat = inner.slot := by
    rw [Word.ofCount, UInt64.toNat_ofNat']
    exact Nat.mod_eq_of_lt (fits inner (List.mem_of_getElem? exposed))
  have clear : g.ClearFor { link with
      target := place.member inner.member
      targetSlot := .ofCount inner.slot } := by
    intro slot input found here other inside enters
    change (Word.ofCount inner.slot).toNat = slot at here
    rw [← here, fit] at enters
    exact absurd enters (feeding.vacant entry List.mem_cons_self inner exposed placed other inside)
  have ends := feeding.sound.ends link member
  refine ⟨feeding.sound.moveLink member rfl clear ends.1 (members _), ?_⟩
  intro later inside slot laterExposed laterPlaced other present enters
  rcases (feeding.sound.wired.mem_insertLink _ other).1 present with rfl | ⟨old, _⟩
  · have sameMember := place.member_injective enters.1
    have sameSlot : inner.slot = slot.slot := fit.symm.trans enters.2
    have same : inner = slot := by
      cases inner
      cases slot
      cases sameMember
      cases sameSlot
      rfl
    rw [Exposure.inputTarget?] at exposed laterExposed
    obtain ⟨bound, _⟩ := List.getElem?_eq_some_iff.1 laterExposed
    have equal := (List.getElem?_inj bound exposes.distinct).1
      (laterExposed.trans ((congrArg some same.symm).trans exposed.symm))
    exact positions later inside equal
  · exact feeding.vacant later (List.mem_cons_of_mem _ inside) slot laterExposed laterPlaced other old enters

theorem Feeding.step {entry : InputSlot × Nat} {rest : List (InputSlot × Nat)} {g : Graph}
    (feeding : Feeding defs group place named roster (entry :: rest) g) (exposes : group.Exposes) (fits : group.SlotsFit)
    (positions : ∀ later ∈ rest, later.2 ≠ entry.2) (members : ∀ k, named (place.member k)) :
    Feeding defs group place named roster rest (moveInput defs group place g entry) := by
  rw [moveInput]
  cases found : entry.1.link.bind g.link? with
  | none => exact feeding.tail
  | some link =>
    cases exposed : (group.exposure.inputTarget? entry.2).filter (defs.places group.config ·.member) with
    | none => exact feeding.tail.removeLink link.id
    | some inner =>
      obtain ⟨id, _, linked⟩ := Option.bind_eq_some_iff.1 found
      exact feeding.moveLink exposes fits positions members (mem_of_link? linked)
        (Option.eq_some_of_filter_eq_some exposed) (Option.filter_eq_some_iff.1 exposed).2

variable (defs) in
theorem Feeding.run {rest : List (InputSlot × Nat)} {g : Graph}
    (feeding : Feeding defs group place named roster rest g) (exposes : group.Exposes) (fits : group.SlotsFit)
    (positions : (rest.map Prod.snd).Nodup) (members : ∀ k, named (place.member k)) :
    Sound named roster (rest.foldl (moveInput defs group place) g) := by
  induction rest generalizing g with
  | nil => exact feeding.sound
  | cons entry rest ih =>
    rw [List.map_cons, List.nodup_cons] at positions
    have apart : ∀ later ∈ rest, later.2 ≠ entry.2 := by
      intro later inside same
      apply positions.1
      rw [← same]
      exact List.mem_map_of_mem inside
    exact ih (feeding.step exposes fits apart members) positions.2

end Feeding

/-! ### Links out of the instance -/

section Leaving

variable {named : NodeId → Prop} {roster : List (NodeId × String)} {g : Graph} (sound : Sound named roster g)

-- Going back along a link leads from one allowed id to another.
include sound in
theorem Sound.behindPassThrough (r : Registry) (unvisited : List NodeId) (start producer : Producer)
    (known : named start.node) (found : g.behindPassThrough r unvisited start = some producer) :
    named producer.node := by
  fun_induction Graph.behindPassThrough g r unvisited start with
  | case1 => cases found
  | case2 unvisited start node here passes open_ link incoming ih =>
    apply ih _ found
    obtain ⟨_, _, back⟩ := Option.bind_eq_some_iff.1 incoming
    obtain ⟨_, _, linked⟩ := Option.bind_eq_some_iff.1 back
    exact (sound.ends link (mem_of_link? linked)).1
  | case3 => cases found
  | case4 => cases found
  | case5 unvisited start node here real =>
    cases found
    exact known

-- In a wired graph the slot that a link goes to holds no other one.
theorem Wired.clearFor {g : Graph} (wired : g.Wired) {link : Link} (member : link ∈ g.links) (origin : NodeId)
    (slot : Word) : g.ClearFor { link with origin := origin, originSlot := slot } := by
  intro index input found here other inside enters
  have holds := (wired.inputs link.target index input found link.id).2 ⟨link, member, rfl, rfl, here⟩
  have otherHolds := (wired.inputs link.target index input found other.id).2 ⟨other, inside, rfl, enters⟩
  exact Option.some_inj.1 (otherHolds.symm.trans holds)

include sound in
theorem Sound.moveOrigin (producer : Option Producer) (known : ∀ source ∈ producer, named source.node) (id : LinkId) :
    Sound named roster (Graph.moveOrigin producer g id) := by
  rw [Graph.moveOrigin]
  cases found : g.link? id with
  | none => exact sound
  | some link =>
    cases producer with
    | none => exact sound.removeLink id
    | some source =>
      have member := mem_of_link? found
      exact sound.moveLink member rfl (sound.wired.clearFor member source.node source.slot)
        (known source rfl) (sound.ends link member).2

include sound in
theorem Sound.foldl_moveOrigin (producer : Option Producer) (known : ∀ source ∈ producer, named source.node)
    (ids : List LinkId) : Sound named roster (ids.foldl (Graph.moveOrigin producer) g) := by
  induction ids generalizing g with
  | nil => exact sound
  | cons id rest ih => exact ih (sound.moveOrigin producer known id)

include sound in
theorem Sound.moveOutput (defs : Definitions) (group : GroupDef) (place : NodeId)
    (members : ∀ k, named (place.member k)) (entry : OutputSlot × Nat) :
    Sound named roster (Graph.moveOutput defs group place g entry) := by
  rw [Graph.moveOutput]
  apply sound.foldl_moveOrigin
  intro source found
  obtain ⟨inner, _, resolved⟩ := Option.bind_eq_some_iff.1 found
  exact sound.behindPassThrough defs.registry _ _ source (members inner.member) resolved

include sound in
theorem Sound.foldl_moveOutput (defs : Definitions) (group : GroupDef) (place : NodeId)
    (members : ∀ k, named (place.member k)) (entries : List (OutputSlot × Nat)) :
    Sound named roster (entries.foldl (Graph.moveOutput defs group place) g) := by
  induction entries generalizing g with
  | nil => exact sound
  | cons entry rest ih => exact ih (sound.moveOutput defs group place members entry)

end Leaving

/-! ### The whole expansion -/

def NamesOrMember (g : Graph) (place id : NodeId) : Prop := g.Names id ∨ ∃ k, id = place.member k

-- The graph with the members of an instance in its place.
structure Expanded (g : Graph) (place : NodeId) (after : Graph) : Prop where
  wired : after.Wired
  ahead : after.Ahead
  displays : (after.nodeIds.map NodeId.display).Nodup
  names : ∀ id, after.Names id → id ≠ place ∧ g.NamesOrMember place id
  nodes : ∀ entry ∈ after.roster, entry ∈ g.roster ∨ ∃ k, entry.1 = place.member k

section Expand

variable {g : Graph} (defs : Definitions) (place : Node) (group : GroupDef)

theorem linking_insertNodes (wired : g.Wired) (ahead : g.Ahead)
    (free : g.FreeFor defs group.config place.id) (position : Nat)
    (room : g.nextLinkId.toNat + group.config.links.countP (defs.joins group.config) < UInt64.size) :
    Linking defs group.config place.id (g.NamesOrMember place.id)
      (g.insertNodes position (group.placedMembers defs place)).roster [] group.config.links
      (g.insertNodes position (group.placedMembers defs place)) where
  sound := {
    wired := wired.insertNodes (group.placedMembers_fresh defs place free) position
    ahead := ahead
    ends := fun link member => by
      constructor
      · exact .inl (.inr ⟨link, member, by simp [touches]⟩)
      · exact .inl (.inr ⟨link, member, by simp [touches]⟩)
    sameRoster := rfl }
  shaped k slot := group.shaped_insertNodes defs place wired.nodeIds free position k slot
  linked link member k placed target := by
    have named : g.Names link.target := .inr ⟨link, member, by simp [touches]⟩
    rw [target] at named
    exact absurd named (free k placed)
  room := room

-- The exposed slots are those that no inner link has come to.
theorem Linking.feeding {named : NodeId → Prop} {roster : List (NodeId × String)}
    (linking : Linking defs group.config place.id named roster group.config.links [] g) (exposes : group.Exposes)
    (inputs : List (InputSlot × Nat)) : Feeding defs group place.id named roster inputs g where
  sound := linking.sound
  vacant entry _ inner exposed placed link member enters := by
    have fed := linking.fed link member inner.member placed enters.1
    rw [enters.2, exposes.unfed inner (List.mem_of_getElem? exposed)] at fed
    cases fed

-- With everything moved away from it the instance goes, and nothing names it any more.
theorem Sound.expanded {left : Graph} {id : NodeId} {roster : List (NodeId × String)}
    (sound : Sound (g.NamesOrMember id) roster left) (displays : ((roster.map Prod.fst).map NodeId.display).Nodup)
    (nodes : ∀ entry ∈ roster, entry ∈ g.roster ∨ ∃ k, entry.1 = id.member k) :
    g.Expanded id (left.removeNode id) := by
  have remaining : (left.removeNode id).roster = roster.filter (·.1 ≠ id) := by
    rw [roster_removeNode, sound.sameRoster]
  have links := sound.wired.mem_removeNode id
  constructor
  · exact sound.wired.removeNode id
  · intro link member
    rw [nextLinkId_removeNode]
    exact sound.ahead link ((links link).1 member).1
  · rw [nodeIds_eq_roster, remaining]
    exact displays.sublist ((List.filter_sublist.map _).map _)
  · intro other named
    rcases named with there | ⟨link, member, touched⟩
    · rw [nodeIds_eq_roster, remaining] at there
      obtain ⟨entry, inside, rfl⟩ := List.mem_map.1 there
      obtain ⟨member, apart⟩ := List.mem_filter.1 inside
      refine ⟨by simpa using apart, ?_⟩
      rcases nodes entry member with old | new
      · left
        left
        rw [nodeIds_eq_roster]
        exact List.mem_map_of_mem old
      · exact .inr new
    · obtain ⟨before, clear⟩ := (links link).1 member
      obtain ⟨origin, target⟩ := (touches_eq_false_iff id link).1 clear
      have ends := sound.ends link before
      rw [touches, Bool.or_eq_true, beq_iff_eq, beq_iff_eq] at touched
      rcases touched with rfl | rfl
      · exact ⟨origin, ends.1⟩
      · exact ⟨target, ends.2⟩
  · intro entry inside
    rw [remaining] at inside
    exact nodes entry (List.mem_filter.1 inside).1

theorem expandInstance_expanded (wired : g.Wired) (ahead : g.Ahead)
    (displays : (g.nodeIds.map NodeId.display).Nodup) (outside : ∀ id, g.Names id → ¬ place.id.IsUnder id)
    (exposes : group.Exposes) (fits : group.SlotsFit) (once : group.config.FeedsOnce)
    (room : g.nextLinkId.toNat + group.config.links.countP (defs.joins group.config) < UInt64.size) :
    g.Expanded place.id (g.expandInstance defs place group) := by
  rw [expandInstance]
  generalize (g.position? place.id).getD g.nodes.length = position
  have members : ∀ k, g.NamesOrMember place.id (place.id.member k) := fun k => .inr ⟨k, rfl⟩
  have free := group.freeFor_of_outside defs place outside
  have placed := linking_insertNodes defs place group wired ahead free position room
  have linked := placed.run once rfl members
  have positions := List.nodup_zipIdx_map_snd (place.inputs.drop place.flowInputCount)
  have fed := (linked.feeding defs place group exposes _).run defs exposes fits positions members
  have left := fed.foldl_moveOutput defs group place.id members
    ((place.outputs.drop place.flowOutputCount).zipIdx)
  apply left.expanded
  · rw [← nodeIds_eq_roster]
    exact group.displays_insertNodes defs place displays outside position
  · intro entry inside
    exact group.mem_roster_insertNodes defs place wired.nodeIds free position inside

end Expand

end Graph
end Patchbay
