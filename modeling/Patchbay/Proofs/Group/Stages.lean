import Patchbay.Proofs.Graph.Forwards
import Patchbay.Proofs.Group.Boundary
import Patchbay.Proofs.Group.InnerLinks
import Patchbay.Proofs.Group.Run

/-!
The stages of an expansion up to the links into the instance: the members are placed, the links between them are
added, and those at its data inputs are moved. Each stage is told by the links that the graph has after it.
-/
set_option autoImplicit false

namespace Patchbay

/-! ### What becomes of a link at the instance -/

section Changes

variable (defs : Definitions) (group : GroupDef) (place : NodeId)

def inputChange (index : Nat) (link : Link) : Option Link :=
  ((group.exposure.inputTarget? index).filter (defs.places group.config ·.member)).map fun inner =>
    { link with
      target := place.member inner.member
      targetSlot := .ofCount inner.slot }

def outputChange (producer : Option Producer) (link : Link) : Option Link :=
  producer.map fun producer => { link with origin := producer.node, originSlot := producer.slot }

theorem inputChange_eq_some_iff {index : Nat} (link : Link) {moved : Link} :
    inputChange defs group place index link = some moved ↔
      ∃ inner, group.exposure.inputTarget? index = some inner ∧ defs.places group.config inner.member ∧
        { link with target := place.member inner.member, targetSlot := .ofCount inner.slot } = moved := by
  rw [inputChange, Option.map_eq_some_iff]
  refine exists_congr fun inner => ?_
  rw [Option.filter_eq_some_iff, and_assoc]

theorem inputChange_keepsId (index : Nat) : Graph.KeepsId (inputChange defs group place index) := by
  intro link moved made
  obtain ⟨inner, _, _, rfl⟩ := (inputChange_eq_some_iff ..).1 made
  rfl

theorem outputChange_of_eq {producer : Option Producer} {source : Producer} (produced : producer = some source)
    (link : Link) :
    outputChange producer link = some { link with origin := source.node, originSlot := source.slot } := by
  rw [outputChange, produced, Option.map_some]

theorem outputChange_keepsId (producer : Option Producer) : Graph.KeepsId (outputChange producer) := by
  intro link moved made
  obtain ⟨source, _, rfl⟩ := Option.map_eq_some_iff.1 made
  rfl

namespace Graph

theorem moveInput_eq (g : Graph) (entry : InputSlot × Nat) : moveInput defs group place g entry =
    entry.1.link.toList.foldl (fun g id => g.reroute (id, inputChange defs group place entry.2)) g := by
  rw [moveInput]
  cases entry.1.link with
  | none => rfl
  | some id =>
    simp only [Option.bind_some, Option.toList_some, List.foldl_cons, List.foldl_nil, reroute]
    cases found : g.link? id with
    | none => rfl
    | some link =>
      rw [← id_of_link? found]
      cases exposed : (group.exposure.inputTarget? entry.2).filter (defs.places group.config ·.member) <;>
        simp [inputChange, exposed]

theorem moveOrigin_eq (producer : Option Producer) (g : Graph) (id : LinkId) :
    moveOrigin producer g id = g.reroute (id, outputChange producer) := by
  rw [moveOrigin, reroute]
  cases g.link? id with
  | none => rfl
  | some link => cases producer <;> rfl

end Graph

end Changes

namespace Graph

/-! ### The stages of an expansion -/

section Stages

variable (g : Graph) (defs : Definitions) (place : Node) (group : GroupDef)

def membersPlaced : Graph :=
  g.insertNodes ((g.position? place.id).getD g.nodes.length) (group.placedMembers defs place)

def membersLinked : Graph :=
  group.config.links.foldl (addInnerLink defs group.config place.id) (g.membersPlaced defs place group)

def inputsMoved : Graph :=
  ((place.inputs.drop place.flowInputCount).zipIdx).foldl (moveInput defs group place.id)
    (g.membersLinked defs place group)

def outputsMoved : Graph :=
  ((place.outputs.drop place.flowOutputCount).zipIdx).foldl (moveOutput defs group place.id)
    (g.inputsMoved defs place group)

theorem expandInstance_eq :
    g.expandInstance defs place group = (g.outputsMoved defs place group).removeNode place.id := rfl

theorem inputsMoved_eq : g.inputsMoved defs place group =
    place.heldInputs.foldl (rerouteHeld (inputChange defs group place.id)) (g.membersLinked defs place group) := by
  rw [inputsMoved, Node.heldInputs, ← foldl_rerouteHeld]
  congr 1
  funext g entry
  exact moveInput_eq defs group place.id g entry

theorem bare_inputsMoved : (g.inputsMoved defs place group).bare = (g.membersPlaced defs place group).bare := by
  rw [inputsMoved, bare_foldl _ (bare_moveInput defs group place.id), membersLinked,
    bare_foldl _ (bare_addInnerLink defs place.id group.config)]

end Stages

-- The graph and an instance that is to be replaced by its members.
structure Staged (g : Graph) (defs : Definitions) (place : Node) (group : GroupDef) : Prop where
  wired : g.Wired
  ahead : g.Ahead
  present : place ∈ g.nodes
  lead : place.flowSlotsLead = true
  free : g.FreeFor defs group.config place.id
  exposes : group.Exposes
  fits : group.SlotsFit
  once : group.config.FeedsOnce
  room : defs.HasRoom g group

section Staged

variable {g : Graph} {defs : Definitions} {place : Node} {group : GroupDef}
variable (staged : g.Staged defs place group)

include staged in
theorem Staged.linking : Linking defs group.config place.id (g.NamesOrMember place.id)
    (g.membersPlaced defs place group).roster group.config.links [] (g.membersLinked defs place group) :=
  (linking_insertNodes defs place group staged.wired staged.ahead staged.free _ staged.room).run
    staged.once rfl fun k => .inr ⟨k, rfl⟩

include staged in
theorem Staged.mem_membersLinked (link : Link) : link ∈ (g.membersLinked defs place group).links ↔
    link ∈ g.links ∨ defs.Adds group.config place.id g.nextLinkId group.config.links link := by
  have placed := linking_insertNodes defs place group staged.wired staged.ahead staged.free
    ((g.position? place.id).getD g.nodes.length) staged.room
  have added := adding_nil.run (fun _ _ => g.outputType_member defs place group _) placed staged.once rfl
    fun k => .inr ⟨k, rfl⟩
  exact added.links link

include staged in
theorem Staged.sound_inputsMoved : Sound (g.NamesOrMember place.id) (g.membersPlaced defs place group).roster
    (g.inputsMoved defs place group) :=
  (staged.linking.feeding defs place group staged.exposes _).run defs staged.exposes staged.fits
    (List.nodup_zipIdx_map_snd _) fun k => .inr ⟨k, rfl⟩

-- No link of the graph touches a member that is to be placed.
include staged in
theorem Staged.ends_ne {link : Link} (member : link ∈ g.links) {k : Nat} (placed : defs.places group.config k) :
    link.origin ≠ place.id.member k ∧ link.target ≠ place.id.member k := by
  rw [← touches_eq_false_iff, ← Bool.not_eq_true]
  exact fun touched => staged.free k placed (.inr ⟨link, member, touched⟩)

include staged in
theorem Staged.not_adds {link : Link} (member : link ∈ g.links) :
    ¬ defs.Adds group.config place.id g.nextLinkId group.config.links link := by
  intro added
  obtain ⟨⟨k, placed, origin⟩, _⟩ := added.ends
  exact (staged.ends_ne member placed).1 origin

include staged in
theorem Staged.id_ne_of_adds {link old : Link} (original : old ∈ g.links)
    (added : defs.Adds group.config place.id g.nextLinkId group.config.links link) : old.id ≠ link.id := by
  intro same
  obtain ⟨n, used, newId⟩ := added.id_eq
  have room := staged.room
  have above := UInt64.le_iff_toNat_le.1 (staged.ahead old original)
  rw [Definitions.HasRoom] at room
  rw [same, newId, Word.toNat_raise, Word.toNat_raise] at above
  omega

include staged in
-- None is left at a data input of the instance.
theorem Staged.mem_inputsMoved (other : Link) : other ∈ (g.inputsMoved defs place group).links ↔
    ((other ∈ g.links ∧ ∀ index, ¬ other.entersData place index) ∨
        defs.Adds group.config place.id g.nextLinkId group.config.links other) ∨
      ∃ index, ∃ link ∈ g.links, link.entersData place index ∧
        inputChange defs group place.id index link = some other := by
  rw [inputsMoved_eq, mem_foldl_rerouteHeld_of_kept staged.linking.sound.wired.linkIds
    (staged.wired.heldInputs_distinct staged.present)
    (staged.wired.mem_heldInputs staged.present staged.lead)
    (fun link member _ _ => (staged.mem_membersLinked link).2 (.inl member))
    (inputChange_keepsId defs group place.id), staged.mem_membersLinked]
  refine or_congr_left ?_
  constructor
  · rintro ⟨original | added, apart⟩
    · exact .inl ⟨original, fun index enters => apart index ⟨original, enters⟩⟩
    · exact .inr added
  · rintro (⟨original, apart⟩ | added)
    · exact ⟨.inl original, fun index enters => apart index enters.2⟩
    · exact ⟨.inr added, fun index enters => staged.not_adds enters.1 added⟩

include staged in
theorem Staged.sound_outputsMoved : Sound (g.NamesOrMember place.id) (g.membersPlaced defs place group).roster
    (g.outputsMoved defs place group) :=
  staged.sound_inputsMoved.foldl_moveOutput defs group place.id (fun k => .inr ⟨k, rfl⟩) _

include staged in
theorem Staged.wired_expandInstance : (g.expandInstance defs place group).Wired :=
  staged.sound_outputsMoved.wired.removeNode place.id

include staged in
theorem Staged.mem_removeInstance (link : Link) : link ∈ (g.expandInstance defs place group).links ↔
    link ∈ (g.outputsMoved defs place group).links ∧ touches place.id link = false :=
  staged.sound_outputsMoved.wired.mem_removeNode place.id link

end Staged

-- The same where no chain leads from the instance back to it.
structure Prepared (g : Graph) (defs : Definitions) (place : Node) (group : GroupDef) : Prop
    extends g.Staged defs place group where
  noReturn : ¬ g.Leads defs.registry place.id place.id

theorem Prepared.target_ne {g : Graph} {defs : Definitions} {place : Node} {group : GroupDef}
    (prepared : g.Prepared defs place group) {link : Link} (member : link ∈ g.links) (leaves : link.origin = place.id) :
    link.target ≠ place.id := by
  intro enters
  have back := Leads.link (r := defs.registry) link member leaves
  rw [enters] at back
  exact prepared.noReturn back

end Graph
end Patchbay
