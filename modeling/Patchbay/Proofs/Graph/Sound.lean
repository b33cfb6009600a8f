import Patchbay.Proofs.Graph.Nodes
import Patchbay.Proofs.Sequencing.LinkIds

/-!
What every change keeps while a graph is worked on: it stays wired, the ids of its links stay below the
next one, its links end at ids that are allowed, and no node comes or goes.
-/
set_option autoImplicit false

namespace Patchbay
namespace Graph

def Counted (g : Graph) : Prop := ∀ link ∈ g.links, link.id < g.nextLinkId

instance (g : Graph) : Decidable g.Counted := inferInstanceAs (Decidable (∀ _ ∈ _, _))

/-- The next id is above those of the links, as far as there is one above them. -/
def Ahead (g : Graph) : Prop := ∀ link ∈ g.links, link.id.raise 1 ≤ g.nextLinkId

instance (g : Graph) : Decidable g.Ahead := inferInstanceAs (Decidable (∀ _ ∈ _, _))

theorem Counted.ahead {g : Graph} (counted : g.Counted) : g.Ahead := by
  intro link member
  have below := UInt64.lt_iff_toNat_lt.1 (counted link member)
  rw [UInt64.le_iff_toNat_le, Word.toNat_raise]
  omega

-- As long as the next id is not the last one no link has it.
theorem Ahead.id_ne {g : Graph} (ahead : g.Ahead) (room : g.nextLinkId.toNat + 1 < UInt64.size) {link : Link}
    (member : link ∈ g.links) : link.id ≠ g.nextLinkId := by
  intro same
  have above := UInt64.le_iff_toNat_le.1 (ahead link member)
  rw [Word.toNat_raise, same] at above
  omega

structure Sound (named : NodeId → Prop) (roster : List (NodeId × String)) (g : Graph) : Prop where
  wired : g.Wired
  ahead : g.Ahead
  ends : ∀ link ∈ g.links, named link.origin ∧ named link.target
  sameRoster : g.roster = roster

theorem mem_ids_foldl_putLink (links done : List Link) (id : LinkId)
    (member : id ∈ (links.foldl (fun done link => putLink link done) done).map (·.id)) :
    id ∈ done.map (·.id) ∨ id ∈ links.map (·.id) := by
  induction links generalizing done with
  | nil => exact .inl member
  | cons link rest ih =>
    rcases ih (putLink link done) member with put | later
    · rcases mem_ids_putLink link done id put with rfl | earlier
      · exact .inr List.mem_cons_self
      · exact .inl earlier
    · exact .inr (List.mem_cons_of_mem _ later)

theorem ahead_ofDocument (doc : Document) : (ofDocument doc).Ahead := by
  intro link member
  rcases mem_ids_foldl_putLink doc.links [] link.id (List.mem_map_of_mem member) with none | used
  · cases none
  · exact doc.raise_le_nextLinkId (List.mem_append_left _ (List.mem_append_left _ used))

theorem counted_ofDocument (doc : Document) (room : ∀ link ∈ (ofDocument doc).links, link.id ≠ Word.top) :
    (ofDocument doc).Counted := by
  intro link member
  have apart := mt Word.eq_top_of_raise_le (room link member)
  exact UInt64.lt_of_lt_of_le (UInt64.not_le.1 apart) (ahead_ofDocument doc link member)

theorem nextLinkId_insertLink (g : Graph) (link : Link) :
    (g.insertLink link).nextLinkId = max g.nextLinkId (link.id.raise 1) := by
  rw [insertLink_eq]

theorem Wired.isSome_inputAt?_insertLink {g : Graph} (wired : g.Wired) (link : Link) (id : NodeId) (slot : Nat) :
    ((g.insertLink link).inputAt? id slot).isSome = (g.inputAt? id slot).isSome := by
  rw [wired.inputAt?_insertLink, Option.isSome_map]

section NewLink

variable {g : Graph} {link : Link} (newId : link.id = g.nextLinkId) (room : g.nextLinkId.toNat + 1 < UInt64.size)

include newId room in
theorem nextLinkId_addLink : (g.allocate.2.insertLink link).nextLinkId.toNat = g.nextLinkId.toNat + 1 := by
  rw [nextLinkId_insertLink, newId, Word.toNat_max]
  simp only [allocate, Word.toNat_raise]
  omega

include newId room in
-- A link under a new id comes last.
theorem Ahead.links_addLink (ahead : g.Ahead) : (g.allocate.2.insertLink link).links = g.links ++ [link] := by
  rw [insertLink_eq]
  refine putLink_of_fresh link g.links fun other member => ?_
  rw [newId]
  exact ahead.id_ne room member

include newId room in
theorem Ahead.addLink (ahead : g.Ahead) : (g.allocate.2.insertLink link).Ahead := by
  intro other member
  rw [ahead.links_addLink newId room, List.mem_append, List.mem_singleton] at member
  rw [UInt64.le_iff_toNat_le, nextLinkId_addLink newId room]
  rcases member with before | rfl
  · have above := UInt64.le_iff_toNat_le.1 (ahead other before)
    omega
  · rw [newId, Word.toNat_raise]
    omega

end NewLink

section Sound

variable {named : NodeId → Prop} {roster : List (NodeId × String)} {g : Graph} (sound : Sound named roster g)

include sound in
theorem Sound.removeLink (id : LinkId) : Sound named roster (g.removeLink id) where
  wired := sound.wired.removeLink id
  ahead link member := by
    rw [nextLinkId_removeLink]
    exact sound.ahead link ((g.mem_removeLink id link).1 member).1
  ends link member := sound.ends link ((g.mem_removeLink id link).1 member).1
  sameRoster := (g.roster_removeLink id).trans sound.sameRoster

-- A link of the graph goes from one place to another and keeps its id.
include sound in
theorem Sound.moveLink {link moved : Link} (member : link ∈ g.links) (sameId : moved.id = link.id)
    (clear : g.ClearFor moved) (origin : named moved.origin) (target : named moved.target) :
    Sound named roster (g.insertLink moved) where
  wired := sound.wired.insertLink moved clear
  ahead other inside := by
    rw [nextLinkId_insertLink]
    refine UInt64.le_trans ?_ (Word.le_max_left _ _)
    rcases (sound.wired.mem_insertLink moved other).1 inside with rfl | ⟨old, _⟩
    · rw [sameId]
      exact sound.ahead link member
    · exact sound.ahead other old
  ends other inside := by
    rcases (sound.wired.mem_insertLink moved other).1 inside with rfl | ⟨old, _⟩
    · exact ⟨origin, target⟩
    · exact sound.ends other old
  sameRoster := (g.roster_insertLink moved).trans sound.sameRoster

theorem Wired.allocate {g : Graph} (wired : g.Wired) : g.allocate.2.Wired :=
  ⟨wired.nodeIds, wired.linkIds, wired.inputs, wired.outputs⟩

-- A link under a new id, as long as there is one.
include sound in
theorem Sound.addLink {link : Link} (newId : link.id = g.nextLinkId) (room : g.nextLinkId.toNat + 1 < UInt64.size)
    (clear : g.ClearFor link) (origin : named link.origin) (target : named link.target) :
    Sound named roster (g.allocate.2.insertLink link) ∧
      (g.allocate.2.insertLink link).nextLinkId.toNat = g.nextLinkId.toNat + 1 := by
  have wired := sound.wired.allocate
  refine ⟨⟨wired.insertLink link clear, sound.ahead.addLink newId room, ?_, ?_⟩, nextLinkId_addLink newId room⟩
  · intro other inside
    rcases (wired.mem_insertLink link other).1 inside with rfl | ⟨old, _⟩
    · exact ⟨origin, target⟩
    · exact sound.ends other old
  · exact (g.allocate.2.roster_insertLink link).trans sound.sameRoster

end Sound

end Graph
end Patchbay
