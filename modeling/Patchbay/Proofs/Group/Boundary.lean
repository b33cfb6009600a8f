import Mathlib.Data.List.Sigma
import Patchbay.Proofs.Graph.Nodes
import Patchbay.Proofs.Graph.Reroute
import Patchbay.Proofs.Sequencing.Slots
import Patchbay.Sequencing.Forms

/-!
The links at the data slots of a node, listed slot by slot. In a wired graph each link is listed once, under
the slot that it enters or leaves, so all of them can be rerouted in one pass.
-/
set_option autoImplicit false

namespace Patchbay

/-! ### Data slots by their numbers -/

namespace Node

/-- The slots of the data inputs; the sequencing inputs are not counted. -/
def dataInputs (node : Node) : List Nat := (node.inputs.zipIdx.filter fun entry => !entry.1.isFlow).map Prod.snd

def dataOutputs (node : Node) : List Nat := (node.outputs.zipIdx.filter fun entry => !entry.1.isFlow).map Prod.snd

end Node

namespace Link

/-- The link goes to the data input of this number. -/
def entersData (link : Link) (node : Node) (index : Nat) : Prop :=
  ∃ slot, node.dataInputs[index]? = some slot ∧ link.entersAt node.id slot

def leavesData (link : Link) (node : Node) (index : Nat) : Prop :=
  ∃ slot, node.dataOutputs[index]? = some slot ∧ link.leavesAt node.id slot

theorem entersData.target {link : Link} {node : Node} {index : Nat} (enters : link.entersData node index) :
    link.target = node.id := by
  obtain ⟨_, _, target, _⟩ := enters
  exact target

theorem leavesData.origin {link : Link} {node : Node} {index : Nat} (leaves : link.leavesData node index) :
    link.origin = node.id := by
  obtain ⟨_, _, origin, _⟩ := leaves
  exact origin

end Link

section Positions

variable {α : Type} {p : α → Bool} {xs : List α} (count : (xs.takeWhile p).length = xs.countP p)

include count in
-- Where all hits come first the others are counted on from there.
theorem positions_of_count :
    (xs.zipIdx.filter fun entry => !p entry.1).map Prod.snd = List.range' (xs.countP p) (xs.length - xs.countP p) := by
  have front : ((xs.takeWhile p).zipIdx.filter fun entry => !p entry.1) = [] := by
    rw [List.filter_eq_nil_iff]
    rintro ⟨x, index⟩ inside
    have hit := List.all_eq_true.1 List.all_takeWhile x (List.mem_of_getElem? (List.mk_mem_zipIdx_iff_getElem?.1 inside))
    simp [hit]
  have back : (((xs.dropWhile p).zipIdx (xs.countP p)).filter fun entry => !p entry.1) =
      (xs.dropWhile p).zipIdx (xs.countP p) := by
    rw [List.filter_eq_self]
    rintro ⟨x, index⟩ inside
    have miss := dropWhile_none_of_count p xs count x (List.fst_mem_of_mem_zipIdx inside)
    simp [miss]
  have length := congrArg List.length (List.takeWhile_append_dropWhile (p := p) (l := xs))
  rw [List.length_append, count] at length
  conv => lhs; rw [← List.takeWhile_append_dropWhile (p := p) (l := xs)]
  rw [List.zipIdx_append, List.filter_append, front, List.nil_append, count, Nat.zero_add, back, List.zipIdx_map_snd]
  congr 1
  omega

include count in
theorem getElem?_positions (index slot : Nat) :
    ((xs.zipIdx.filter fun entry => !p entry.1).map Prod.snd)[index]? = some slot ↔
      slot = xs.countP p + index ∧ slot < xs.length := by
  rw [positions_of_count count]
  by_cases bound : index < xs.length - xs.countP p
  · rw [List.getElem?_range' bound]
    simp only [Option.some.injEq]
    omega
  · rw [List.getElem?_eq_none (by simpa using bound)]
    simp only [reduceCtorEq, false_iff]
    omega

end Positions

/-! ### Listing what slots hold -/

-- The ids that the slots hold, each with the number of its slot.
def held {α : Type} (ids : α → List LinkId) (slots : List α) : List (Nat × LinkId) :=
  slots.zipIdx.flatMap fun entry => (ids entry.1).map (entry.2, ·)

section Held

variable {α : Type} {ids : α → List LinkId} {slots : List α}

theorem mem_held {index : Nat} {id : LinkId} :
    (index, id) ∈ held ids slots ↔ ∃ slot, slots[index]? = some slot ∧ id ∈ ids slot := by
  simp only [held, List.mem_flatMap, List.mem_map, Prod.mk.injEq, Prod.exists, List.mk_mem_zipIdx_iff_getElem?]
  constructor
  · rintro ⟨slot, _, there, _, inside, rfl, rfl⟩
    exact ⟨slot, there, inside⟩
  · rintro ⟨slot, there, inside⟩
    exact ⟨slot, index, there, id, inside, rfl, rfl⟩

theorem held_append (front back : List α) :
    held ids (front ++ back) = held ids front ++
      (back.zipIdx front.length).flatMap fun entry => (ids entry.1).map (entry.2, ·) := by
  rw [held, held, List.zipIdx_append, List.flatMap_append, Nat.zero_add]

theorem mem_held_take {count index : Nat} {id : LinkId} :
    (index, id) ∈ held ids (slots.take count) ↔ index < count ∧ (index, id) ∈ held ids slots := by
  simp only [mem_held, List.getElem?_take]
  by_cases earlier : index < count
  · simp [earlier]
  · simp [earlier]

theorem held_distinct (each : ∀ slot ∈ slots, (ids slot).Nodup)
    (apart : ∀ i j id, (i, id) ∈ held ids slots → (j, id) ∈ held ids slots → i = j) :
    ((held ids slots).map Prod.snd).Nodup := by
  have pairs : (held ids slots).Nodup := by
    rw [held, List.nodup_flatMap]
    constructor
    · intro entry inside
      exact (each entry.1 (List.fst_mem_of_mem_zipIdx inside)).map fun _ _ same => (Prod.mk.inj same).2
    · have positions := List.nodup_zipIdx_map_snd slots
      rw [List.Nodup, List.pairwise_map] at positions
      refine positions.imp fun different first memberFirst memberSecond => ?_
      obtain ⟨_, _, rfl⟩ := List.mem_map.1 memberFirst
      obtain ⟨_, _, same⟩ := List.mem_map.1 memberSecond
      exact different (Prod.mk.inj same).1.symm
  refine pairs.map_on ?_
  rintro ⟨i, id⟩ memberI ⟨j, other⟩ memberJ same
  cases (same : id = other)
  rw [apart i j id memberI memberJ]

section Dropped

variable {links : List Link} {there : Link → Nat → Prop}
variable (holds : ∀ slot x, slots[slot]? = some x →
  (ids x).Nodup ∧ ∀ id, id ∈ ids x ↔ ∃ link ∈ links, link.id = id ∧ there link slot)

include holds in
theorem mem_held_drop (count index : Nat) (id : LinkId) : (index, id) ∈ held ids (slots.drop count) ↔
    ∃ link ∈ links, link.id = id ∧ ∃ slot, (slot = count + index ∧ slot < slots.length) ∧ there link slot := by
  simp only [mem_held, List.getElem?_drop]
  constructor
  · rintro ⟨x, found, inside⟩
    obtain ⟨link, member, same, here⟩ := ((holds _ x found).2 id).1 inside
    obtain ⟨bound, _⟩ := List.getElem?_eq_some_iff.1 found
    exact ⟨link, member, same, _, ⟨rfl, bound⟩, here⟩
  · rintro ⟨link, member, same, _, ⟨rfl, bound⟩, here⟩
    have found := List.getElem?_eq_getElem bound
    exact ⟨_, found, ((holds _ _ found).2 id).2 ⟨link, member, same, here⟩⟩

include holds in
-- A link that is at one slot only is listed once.
theorem held_drop_distinct (linkIds : (links.map (·.id)).Nodup)
    (only : ∀ link a b, there link a → there link b → a = b) (count : Nat) :
    ((held ids (slots.drop count)).map Prod.snd).Nodup := by
  refine held_distinct (fun x inside => ?_) fun i j id first second => ?_
  · obtain ⟨slot, found⟩ := List.getElem?_of_mem (List.mem_of_mem_drop inside)
    exact (holds slot x found).1
  · obtain ⟨link, member, rfl, a, ⟨at_i, _⟩, here⟩ := (mem_held_drop holds count i id).1 first
    obtain ⟨twin, inside, same, b, ⟨at_j, _⟩, also⟩ := (mem_held_drop holds count j link.id).1 second
    rw [List.inj_on_of_nodup_map linkIds inside member same] at also
    have slot := only link a b here also
    omega

end Dropped

namespace Graph

def rerouteHeld (change : Nat → Link → Option Link) (g : Graph) (entry : Nat × LinkId) : Graph :=
  g.reroute (entry.2, change entry.1)

variable {change : Nat → Link → Option Link}

-- Slot by slot, and at each slot id by id, is one pass over the list.
theorem foldl_rerouteHeld (g : Graph) :
    slots.zipIdx.foldl (fun g entry => (ids entry.1).foldl (fun g id => g.reroute (id, change entry.2)) g) g =
      (held ids slots).foldl (rerouteHeld change) g := by
  rw [held, List.foldl_flatMap]
  simp only [List.foldl_map]
  rfl

theorem mem_foldl_rerouteHeld {g : Graph} (linkIds : (g.links.map (·.id)).Nodup) {entries : List (Nat × LinkId)}
    (distinct : (entries.map Prod.snd).Nodup) (keeps : ∀ index, KeepsId (change index)) (other : Link) :
    other ∈ (entries.foldl (rerouteHeld change) g).links ↔
      (other ∈ g.links ∧ ∀ index, (index, other.id) ∉ entries) ∨
        ∃ index, ∃ link ∈ g.links, (index, link.id) ∈ entries ∧ change index link = some other := by
  have pass := mem_foldl_reroute (entries.map fun entry => (entry.2, change entry.1)) linkIds
    (by rw [List.map_map]; exact distinct)
    (fun step inside => by
      obtain ⟨entry, _, rfl⟩ := List.mem_map.1 inside
      exact keeps entry.1) other
  rw [List.foldl_map] at pass
  refine pass.trans (or_congr (and_congr_right fun _ => ?_) ?_)
  · simp only [List.map_map, List.mem_map, Prod.exists, not_exists, not_and, Function.comp]
    constructor
    · exact fun absent index inside => absent index other.id inside rfl
    · rintro absent index _ inside rfl
      exact absent index inside
  · constructor
    · rintro ⟨_, inside, link, member, same, made⟩
      obtain ⟨⟨index, id⟩, listed, rfl⟩ := List.mem_map.1 inside
      cases same
      exact ⟨index, link, member, listed, made⟩
    · rintro ⟨index, link, member, listed, made⟩
      exact ⟨_, List.mem_map.2 ⟨(index, link.id), listed, rfl⟩, link, member, rfl, made⟩

-- The pass over the links of one graph runs in another one that still has these links.
theorem mem_foldl_rerouteHeld_of_kept {g h : Graph} (linkIds : (h.links.map (·.id)).Nodup)
    {entries : List (Nat × LinkId)} (distinct : (entries.map Prod.snd).Nodup) {there : Nat → Link → Prop}
    (listed : ∀ index id, (index, id) ∈ entries ↔ ∃ link ∈ g.links, link.id = id ∧ there index link)
    (kept : ∀ link ∈ g.links, ∀ index, there index link → link ∈ h.links) (keeps : ∀ index, KeepsId (change index))
    (other : Link) : other ∈ (entries.foldl (rerouteHeld change) h).links ↔
      (other ∈ h.links ∧ ∀ index, ¬ (other ∈ g.links ∧ there index other)) ∨
        ∃ index, ∃ link ∈ g.links, there index link ∧ change index link = some other := by
  have listed_iff : ∀ index, ∀ link ∈ h.links, ((index, link.id) ∈ entries ↔ link ∈ g.links ∧ there index link) := by
    intro index link member
    rw [listed]
    constructor
    · rintro ⟨twin, inside, same, here⟩
      rw [← List.inj_on_of_nodup_map linkIds (kept twin inside index here) member same]
      exact ⟨inside, here⟩
    · rintro ⟨inside, here⟩
      exact ⟨link, inside, rfl, here⟩
  rw [mem_foldl_rerouteHeld linkIds distinct keeps]
  refine or_congr (and_congr_right fun member => ?_) (exists_congr fun index => ?_)
  · exact forall_congr' fun index => not_congr (listed_iff index other member)
  · constructor
    · rintro ⟨link, member, inside, made⟩
      obtain ⟨original, here⟩ := (listed_iff index link member).1 inside
      exact ⟨link, original, here, made⟩
    · rintro ⟨link, original, here, made⟩
      have member := kept link original index here
      exact ⟨link, member, (listed_iff index link member).2 ⟨original, here⟩, made⟩

end Graph

end Held

/-! ### The links at an instance -/

namespace Node

def heldInputs (node : Node) : List (Nat × LinkId) := held (·.link.toList) (node.inputs.drop node.flowInputCount)

def heldOutputs (node : Node) : List (Nat × LinkId) := held (·.linkIds) (node.outputs.drop node.flowOutputCount)

end Node

namespace Graph

section Boundary

variable {g : Graph} (wired : g.Wired) {place : Node} (present : place ∈ g.nodes) (lead : place.flowSlotsLead = true)

include lead in
theorem getElem?_dataInputs (index slot : Nat) :
    place.dataInputs[index]? = some slot ↔ slot = place.flowInputCount + index ∧ slot < place.inputs.length := by
  rw [Node.flowSlotsLead, Bool.and_eq_true, beq_iff_eq, beq_iff_eq] at lead
  exact getElem?_positions lead.1 index slot

include lead in
theorem getElem?_dataOutputs (index slot : Nat) :
    place.dataOutputs[index]? = some slot ↔ slot = place.flowOutputCount + index ∧ slot < place.outputs.length := by
  rw [Node.flowSlotsLead, Bool.and_eq_true, beq_iff_eq, beq_iff_eq] at lead
  exact getElem?_positions lead.2 index slot

include wired present in
theorem Wired.place_inputs (slot : Nat) (input : InputSlot) (there : place.inputs[slot]? = some input) :
    input.link.toList.Nodup ∧
      ∀ id, id ∈ input.link.toList ↔ ∃ link ∈ g.links, link.id = id ∧ link.entersAt place.id slot := by
  refine ⟨input.link.toList_nodup, fun id => ?_⟩
  rw [Option.mem_toList]
  exact wired.inputs place.id slot input ((inputAt?_eq_some_iff wired.nodeIds _ _ _).2 ⟨place, present, rfl, there⟩) id

include wired present in
theorem Wired.place_outputs (slot : Nat) (output : OutputSlot) (there : place.outputs[slot]? = some output) :
    output.linkIds.Nodup ∧
      ∀ id, id ∈ output.linkIds ↔ ∃ link ∈ g.links, link.id = id ∧ link.leavesAt place.id slot :=
  wired.outputs place.id slot output ((outputAt?_eq_some_iff wired.nodeIds _ _ _).2 ⟨place, present, rfl, there⟩)

include wired present lead in
theorem Wired.mem_heldInputs (index : Nat) (id : LinkId) :
    (index, id) ∈ place.heldInputs ↔ ∃ link ∈ g.links, link.id = id ∧ link.entersData place index := by
  rw [Node.heldInputs, mem_held_drop (wired.place_inputs present)]
  simp only [Link.entersData, getElem?_dataInputs lead]

include wired present lead in
theorem Wired.mem_heldOutputs (index : Nat) (id : LinkId) :
    (index, id) ∈ place.heldOutputs ↔ ∃ link ∈ g.links, link.id = id ∧ link.leavesData place index := by
  rw [Node.heldOutputs, mem_held_drop (wired.place_outputs present)]
  simp only [Link.leavesData, getElem?_dataOutputs lead]

include wired present in
theorem Wired.heldInputs_distinct : (place.heldInputs.map Prod.snd).Nodup :=
  held_drop_distinct (wired.place_inputs present) wired.linkIds (fun _ _ _ a b => a.2.symm.trans b.2) _

include wired present in
theorem Wired.heldOutputs_distinct : (place.heldOutputs.map Prod.snd).Nodup :=
  held_drop_distinct (wired.place_outputs present) wired.linkIds (fun _ _ _ a b => a.2.symm.trans b.2) _

end Boundary

end Graph
end Patchbay
