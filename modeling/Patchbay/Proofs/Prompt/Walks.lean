import Mathlib.Algebra.Group.Nat.Defs
import Patchbay.Proofs.Graph.DataSlots
import Patchbay.Proofs.Prompt.Idle

/-!
What the search for the producer behind an input finds, told by the walk that it makes: from link to link, through
nodes that pass on what they receive, until a node gives the value itself or the walk can go no further. Main
statement: `resolveInput_walk`.
-/
set_option autoImplicit false

namespace Patchbay

namespace Node

-- A data input of this type.
def ReceivesAt (node : Node) (type : String) (i : Nat) : Prop :=
  ∃ input, node.inputs[i]? = some input ∧ input.isFlow = false ∧ input.type = type

instance decidableReceivesAt (node : Node) (type : String) (i : Nat) : Decidable (node.ReceivesAt type i) :=
  decidable_of_iff (node.isDataInput type i = true) (node.isDataInput_iff type i)

/-- The node passes on, at one of its outputs, what it receives at this input. A virtual node does so between data
slots of the same place. A bypassed node takes the input of the same number, or else the first one, among those that
have the type asked for. -/
inductive PassesOn (node : Node) (r : Registry) (type : String) : Nat → Nat → Prop
  | virtual (place : Nat) (role : r.participation node = .virtual) :
      PassesOn node r type (node.flowOutputCount + place) (node.flowInputCount + place)
  | straight (slot : Nat) (role : r.participation node = .bypassed) (typed : node.ReceivesAt type slot) :
      PassesOn node r type slot slot
  | first (slot i : Nat) (role : r.participation node = .bypassed) (other : ¬ node.ReceivesAt type slot)
      (typed : node.ReceivesAt type i) (least : ∀ j < i, ¬ node.ReceivesAt type j) : PassesOn node r type slot i

theorem virtualInput?_eq_some_iff (node : Node) (slot : Word) (input : Nat)
    (room : node.inputs.length + slot.toNat < UInt64.size) : node.virtualInput? slot = some input ↔
      ∃ place, slot.toNat = node.flowOutputCount + place ∧ node.flowInputCount + place = input := by
  have count : node.flowInputCount ≤ node.inputs.length := List.countP_le_length
  have sum : (Word.ofCount node.flowInputCount + slot.lower node.flowOutputCount).toNat =
      node.flowInputCount + (slot.toNat - node.flowOutputCount) := by
    rw [UInt64.toNat_add, Word.ofCount, UInt64.toNat_ofNat', Word.toNat_lower]
    simp only [UInt64.size] at room
    omega
  rw [virtualInput?, Word.lower?]
  by_cases data : node.flowOutputCount ≤ slot.toNat
  · rw [if_pos data, Option.map_some, Option.some.injEq, sum]
    constructor
    · intro place
      exact ⟨slot.toNat - node.flowOutputCount, by omega, place⟩
    · rintro ⟨place, same, rfl⟩
      omega
  · rw [if_neg data]
    constructor
    · intro none
      cases none
    · rintro ⟨place, same, _⟩
      omega

theorem bypassInput?_eq_some_iff (node : Node) (type : String) (slot : Word) (input : Nat) :
    node.bypassInput? type slot = some input ↔ node.ReceivesAt type slot.toNat ∧ input = slot.toNat ∨
      ¬ node.ReceivesAt type slot.toNat ∧ node.ReceivesAt type input ∧ ∀ j < input, ¬ node.ReceivesAt type j := by
  have typed : ∀ i, node.ReceivesAt type i ↔ node.isDataInput type i = true :=
    fun i => (node.isDataInput_iff type i).symm
  rw [bypassInput?_eq, preferredInput?]
  by_cases here : node.ReceivesAt type slot.toNat
  · rw [if_pos ((typed _).1 here), Option.some.injEq]
    simp [here, eq_comm]
  · rw [if_neg (mt (typed _).2 here), firstDataInput?_eq_some_iff]
    simp [here, typed]

theorem passedInput?_eq_some_iff (node : Node) (r : Registry) (type : String) (slot : Word) (input : Nat)
    (room : node.inputs.length + slot.toNat < UInt64.size) :
    node.passedInput? r type slot = some input ↔ node.PassesOn r type slot.toNat input := by
  constructor
  · intro passed
    rw [passedInput?] at passed
    cases role : r.participation node with
    | normal => simp [role] at passed
    | muted => simp [role] at passed
    | virtual =>
      rw [role] at passed
      obtain ⟨place, same, rfl⟩ := (node.virtualInput?_eq_some_iff slot input room).1 passed
      rw [same]
      exact .virtual place role
    | bypassed =>
      rw [role] at passed
      obtain ⟨typed, rfl⟩ | ⟨other, typed, least⟩ := (node.bypassInput?_eq_some_iff type slot input).1 passed
      · exact .straight slot.toNat role typed
      · exact .first slot.toNat input role other typed least
  · intro passes
    generalize number : slot.toNat = out at passes
    cases passes with
    | virtual place role =>
      rw [passedInput?, role]
      exact (node.virtualInput?_eq_some_iff slot _ room).2 ⟨place, number, rfl⟩
    | straight _ role typed =>
      rw [passedInput?, role]
      subst number
      exact (node.bypassInput?_eq_some_iff type slot _).2 (.inl ⟨typed, rfl⟩)
    | first _ _ role other typed least =>
      rw [passedInput?, role]
      subst number
      exact (node.bypassInput?_eq_some_iff type slot _).2 (.inr ⟨other, typed, least⟩)

theorem PassesOn.not_normal {node : Node} {r : Registry} {type : String} {slot input : Nat}
    (passes : node.PassesOn r type slot input) : r.participation node ≠ .normal := by
  cases passes <;> simp [*]

end Node

namespace Graph

/-- A walk goes from link to link, back through nodes that pass on what they receive. It is told with the ids of
the nodes that it has gone through. -/
inductive WalksBack (g : Graph) (r : Registry) (type : String) : Link → List NodeId → Link → Prop
  | here (link : Link) : WalksBack g r type link [] link
  | onward (link next last : Link) (node : Node) (input : Nat) (ids : List NodeId)
      (found : g.node? link.origin = some node) (passes : node.PassesOn r type link.originSlot.toNat input)
      (fed : g.incoming? link.origin input = some next) (rest : WalksBack g r type next ids last) :
      WalksBack g r type link (link.origin :: ids) last

/-- Why a walk that has been to these nodes ends with a link from which no value comes. -/
inductive GivesUp (g : Graph) (r : Registry) (type : String) (seen : List NodeId) (link : Link) : Prop
  | unknown (none : g.node? link.origin = none)
  | again (visited : link.origin ∈ seen)
  | muted (node : Node) (found : g.node? link.origin = some node) (role : r.participation node = .muted)
  | noInput (node : Node) (found : g.node? link.origin = some node)
      (role : r.participation node = .virtual ∨ r.participation node = .bypassed)
      (stuck : ∀ input, ¬ node.PassesOn r type link.originSlot.toNat input)
  | unfed (node : Node) (input : Nat) (found : g.node? link.origin = some node)
      (passes : node.PassesOn r type link.originSlot.toNat input) (none : g.incoming? link.origin input = none)

section Walks

variable {g : Graph} {r : Registry} {type : String}

theorem WalksBack.known {first last : Link} {ids : List NodeId} (walk : g.WalksBack r type first ids last)
    (member : first ∈ g.links) : last ∈ g.links ∧ ∀ id ∈ ids, id ∈ g.nodeIds := by
  induction walk with
  | here link => exact ⟨member, by simp⟩
  | onward link next last node input ids found passes fed rest ih =>
    obtain ⟨inside, known⟩ := ih (mem_of_incoming? fed)
    exact ⟨inside, List.forall_mem_cons.2 ⟨(g.mem_nodeIds_iff _).2 (Option.isSome_of_eq_some found), known⟩⟩

-- Slot numbers can be counted on within the words.
variable (room : ∀ link ∈ g.links, ∀ node, g.node? link.origin = some node →
  node.inputs.length + link.originSlot.toNat < UInt64.size)

include room in
theorem passedInput?_iff {link : Link} (member : link ∈ g.links) {node : Node} (found : g.node? link.origin = some node)
    (input : Nat) :
    node.passedInput? r type link.originSlot = some input ↔ node.PassesOn r type link.originSlot.toNat input :=
  node.passedInput?_eq_some_iff r type link.originSlot input (room link member node found)

theorem without_filter (id : NodeId) (ids unvisited : List NodeId) :
    (without id unvisited).filter (· ∉ ids) = unvisited.filter (· ∉ id :: ids) := by
  rw [without, List.filter_filter]
  apply List.filter_congr
  intro other _
  simp [not_or, Bool.and_comm]

include room in
theorem WalksBack.follow {first last : Link} {ids : List NodeId} (walk : g.WalksBack r type first ids last)
    (member : first ∈ g.links) (apart : ids.Nodup) (unvisited : List NodeId) (ahead : ∀ id ∈ ids, id ∈ unvisited) :
    g.follow r type unvisited first = g.follow r type (unvisited.filter (· ∉ ids)) last := by
  induction walk generalizing unvisited with
  | here link => simp
  | onward link next last node input ids found passes fed rest ih =>
    have left : ∀ id ∈ ids, id ∈ without link.origin unvisited := by
      intro id inside
      have other : id ≠ link.origin := fun same => (List.nodup_cons.1 apart).1 (same ▸ inside)
      exact mem_without_iff.2 ⟨ahead id (List.mem_cons_of_mem _ inside), other⟩
    rw [follow_eq, found, Option.bind_some, if_pos (ahead _ List.mem_cons_self), if_neg passes.not_normal,
      (passedInput?_iff room member found input).2 passes, Option.bind_some, fed, Option.bind_some,
      ih (mem_of_incoming? fed) (List.nodup_cons.1 apart).2 _ left, without_filter]

include room in
theorem GivesUp.follow {link : Link} {seen unvisited : List NodeId} (stuck : g.GivesUp r type seen link)
    (member : link ∈ g.links) (left : ∀ id ∈ seen, id ∉ unvisited) : g.follow r type unvisited link = none := by
  rw [follow_eq, Option.bind_eq_none_iff]
  intro node there
  by_cases unseen : link.origin ∈ unvisited
  swap
  · rw [if_neg unseen]
  rw [if_pos unseen]
  cases stuck with
  | unknown none => simp [there] at none
  | again visited => exact absurd unseen (left _ visited)
  | muted node' found role =>
    rw [found] at there
    cases there
    simp [role, Node.passedInput?]
  | noInput node' found role stuck =>
    rw [found] at there
    cases there
    have nowhere : node.passedInput? r type link.originSlot = none :=
      Option.eq_none_iff_forall_ne_some.2 fun input passed =>
        stuck input ((passedInput?_iff room member found input).1 passed)
    have active : r.participation node ≠ .normal := by
      rcases role with role | role <;> simp [role]
    rw [if_neg active, nowhere, Option.bind_none, Option.bind_none]
  | unfed node' input found passes none =>
    rw [found] at there
    cases there
    rw [if_neg passes.not_normal, (passedInput?_iff room member found input).2 passes, Option.bind_some, none,
      Option.bind_none]

/-- What the node at the origin of a link does with it: it gives the value itself, has nothing to give, or passes the
walk on. -/
theorem origin_cases (g : Graph) (r : Registry) (type : String) (link : Link) :
    (∃ node, g.node? link.origin = some node ∧ r.participation node = .normal) ∨ g.GivesUp r type [] link ∨
      ∃ node input next, g.node? link.origin = some node ∧ node.PassesOn r type link.originSlot.toNat input ∧
        g.incoming? link.origin input = some next := by
  cases found : g.node? link.origin with
  | none => exact .inr (.inl (.unknown found))
  | some node =>
    by_cases passing : ∃ input, node.PassesOn r type link.originSlot.toNat input
    · obtain ⟨input, passes⟩ := passing
      cases fed : g.incoming? link.origin input with
      | none => exact .inr (.inl (.unfed node input found passes fed))
      | some next => exact .inr (.inr ⟨node, input, next, rfl, passes, fed⟩)
    · have stuck : ∀ input, ¬ node.PassesOn r type link.originSlot.toNat input := fun input passes =>
        passing ⟨input, passes⟩
      cases role : r.participation node with
      | normal => exact .inl ⟨node, rfl, role⟩
      | muted => exact .inr (.inl (.muted node found role))
      | virtual => exact .inr (.inl (.noInput node found (.inl role) stuck))
      | bypassed => exact .inr (.inl (.noInput node found (.inr role) stuck))

theorem GivesUp.mono {link : Link} {seen more : List NodeId} (stuck : g.GivesUp r type seen link) (sub : seen ⊆ more) :
    g.GivesUp r type more link := by
  cases stuck with
  | unknown none => exact .unknown none
  | again visited => exact .again (sub visited)
  | muted node found role => exact .muted node found role
  | noInput node found role stuck => exact .noInput node found role stuck
  | unfed node input found passes none => exact .unfed node input found passes none

/-- Every walk comes to an end at nodes apart: at one that gives the value, at one that has nothing to give, or where
it would have to enter a node that it must not. -/
theorem exists_end (g : Graph) (r : Registry) (type : String) (unvisited : List NodeId) (first : Link) :
    ∃ ids last, g.WalksBack r type first ids last ∧ ids.Nodup ∧ (∀ id ∈ ids, id ∈ unvisited) ∧
      ((∃ node, g.node? last.origin = some node ∧ r.participation node = .normal ∧ last.origin ∉ ids ∧
          last.origin ∈ unvisited) ∨ g.GivesUp r type ids last ∨ last.origin ∉ unvisited) := by
  by_cases unseen : first.origin ∈ unvisited
  swap
  · exact ⟨[], first, .here first, List.nodup_nil, by simp, .inr (.inr unseen)⟩
  obtain ⟨node, found, normal⟩ | stuck | ⟨node, input, next, found, passes, fed⟩ := origin_cases g r type first
  · exact ⟨[], first, .here first, List.nodup_nil, by simp, .inl ⟨node, found, normal, by simp, unseen⟩⟩
  · exact ⟨[], first, .here first, List.nodup_nil, by simp, .inr (.inl stuck)⟩
  · obtain ⟨ids, last, walk, apart, ahead, outcome⟩ := exists_end g r type (without first.origin unvisited) next
    have left : ∀ id ∈ ids, id ∈ unvisited ∧ id ≠ first.origin := fun id inside => mem_without_iff.1 (ahead id inside)
    refine ⟨first.origin :: ids, last, .onward first next last node input ids found passes fed walk, ?_, ?_, ?_⟩
    · exact List.nodup_cons.2 ⟨fun inside => (left _ inside).2 rfl, apart⟩
    · exact List.forall_mem_cons.2 ⟨unseen, fun id inside => (left id inside).1⟩
    · obtain ⟨source, there, normal, new, inside⟩ | stuck | outside := outcome
      · obtain ⟨inside, other⟩ := mem_without_iff.1 inside
        exact .inl ⟨source, there, normal, List.not_mem_cons_of_ne_of_not_mem other new, inside⟩
      · exact .inr (.inl (stuck.mono (List.subset_cons_self _ _)))
      · by_cases back : last.origin = first.origin
        · exact .inr (.inl (.again (back ▸ List.mem_cons_self)))
        · exact .inr (.inr fun inside => outside (mem_without_iff.2 ⟨inside, back⟩))
termination_by unvisited.length
decreasing_by exact length_without_lt unseen

include room in
theorem WalksBack.follow_nodeIds {first last : Link} {ids : List NodeId} (walk : g.WalksBack r type first ids last)
    (member : first ∈ g.links) (apart : ids.Nodup) :
    g.follow r type g.nodeIds first = g.follow r type (g.nodeIds.filter (· ∉ ids)) last :=
  walk.follow room member apart g.nodeIds (walk.known member).2

include room in
theorem WalksBack.finds {first last : Link} {ids : List NodeId} (walk : g.WalksBack r type first ids last)
    (member : first ∈ g.links) (apart : (ids ++ [last.origin]).Nodup) {node : Node}
    (found : g.node? last.origin = some node) (normal : r.participation node = .normal) :
    g.follow r type g.nodeIds first = some ⟨last.origin, last.originSlot⟩ := by
  have new : last.origin ∉ ids := by
    have other := (List.nodup_append.1 apart).2.2
    exact fun inside => other _ inside _ List.mem_cons_self rfl
  have unseen : last.origin ∈ g.nodeIds.filter (· ∉ ids) :=
    List.mem_filter.2 ⟨(g.mem_nodeIds_iff _).2 (Option.isSome_of_eq_some found), decide_eq_true new⟩
  rw [walk.follow_nodeIds room member (List.nodup_append.1 apart).1, follow_eq, found, Option.bind_some,
    if_pos unseen, if_pos normal]

include room in
theorem WalksBack.loses {first last : Link} {ids : List NodeId} (walk : g.WalksBack r type first ids last)
    (member : first ∈ g.links) (apart : ids.Nodup) (stuck : g.GivesUp r type ids last) :
    g.follow r type g.nodeIds first = none := by
  rw [walk.follow_nodeIds room member apart]
  refine stuck.follow room (walk.known member).1 fun id inside left => ?_
  exact of_decide_eq_true (List.mem_filter.1 left).2 inside

-- Outside of the nodes of the graph there is none to enter.
theorem exists_walk (g : Graph) (r : Registry) (type : String) (first : Link) :
    ∃ ids last, g.WalksBack r type first ids last ∧ ids.Nodup ∧
      ((∃ node, g.node? last.origin = some node ∧ r.participation node = .normal ∧ (ids ++ [last.origin]).Nodup) ∨
        g.GivesUp r type ids last) := by
  obtain ⟨ids, last, walk, apart, _, ⟨node, found, normal, new, _⟩ | stuck | outside⟩ :=
    exists_end g r type g.nodeIds first
  · refine ⟨ids, last, walk, apart, .inl ⟨node, found, normal, List.nodup_append.2 ⟨apart, List.nodup_singleton _, ?_⟩⟩⟩
    simpa using fun id inside => ne_of_mem_of_not_mem inside new
  · exact ⟨ids, last, walk, apart, .inr stuck⟩
  · refine ⟨ids, last, walk, apart, .inr (.unknown ?_)⟩
    cases found : g.node? last.origin with
    | none => rfl
    | some node => exact absurd ((g.mem_nodeIds_iff _).2 (Option.isSome_of_eq_some found)) outside

include room in
theorem follow_eq_some_iff {first : Link} (member : first ∈ g.links) (producer : Producer) :
    g.follow r type g.nodeIds first = some producer ↔ ∃ ids last node, g.WalksBack r type first ids last ∧
      (ids ++ [last.origin]).Nodup ∧ g.node? last.origin = some node ∧ r.participation node = .normal ∧
      producer = ⟨last.origin, last.originSlot⟩ := by
  constructor
  · intro found
    obtain ⟨ids, last, walk, apart, ⟨node, there, normal, all⟩ | stuck⟩ := exists_walk g r type first
    · rw [walk.finds room member all there normal] at found
      exact ⟨ids, last, node, walk, all, there, normal, (Option.some.inj found).symm⟩
    · rw [walk.loses room member apart stuck] at found
      cases found
  · rintro ⟨ids, last, node, walk, apart, there, normal, rfl⟩
    exact walk.finds room member apart there normal

include room in
theorem follow_eq_none_iff {first : Link} (member : first ∈ g.links) :
    g.follow r type g.nodeIds first = none ↔
      ∃ ids last, g.WalksBack r type first ids last ∧ ids.Nodup ∧ g.GivesUp r type ids last := by
  constructor
  · intro none
    obtain ⟨ids, last, walk, apart, ⟨node, there, normal, all⟩ | stuck⟩ := exists_walk g r type first
    · rw [walk.finds room member all there normal] at none
      cases none
    · exact ⟨ids, last, walk, apart, stuck⟩
  · rintro ⟨ids, last, walk, apart, stuck⟩
    exact walk.loses room member apart stuck

end Walks

/-- The producer behind an input is the one at the end of the walk back from its link, through nodes that are all
different. Nothing is found where the slot or its link is missing, or where the walk comes to a node that it does not
know, has been to or gets nothing from. No slot number is as high as 2 ^ 63, and no list longer than that. -/
theorem resolveInput_walk (g : Graph) (r : Registry) (slots : ∀ link ∈ g.links, link.originSlot.toNat < 2 ^ 63)
    (sized : ∀ node ∈ g.nodes, node.inputs.length ≤ 2 ^ 63) (id : NodeId) (slot : Nat) :
    (∀ producer, g.resolveInput r id slot = some producer ↔
      ∃ input first ids last node, g.inputAt? id slot = some input ∧ g.incoming? id slot = some first ∧
        g.WalksBack r input.type first ids last ∧ (ids ++ [last.origin]).Nodup ∧
        g.node? last.origin = some node ∧ r.participation node = .normal ∧
        producer = ⟨last.origin, last.originSlot⟩) ∧
    (g.resolveInput r id slot = none ↔ g.inputAt? id slot = none ∨ g.incoming? id slot = none ∨
      ∃ input first ids last, g.inputAt? id slot = some input ∧ g.incoming? id slot = some first ∧
        g.WalksBack r input.type first ids last ∧ ids.Nodup ∧ g.GivesUp r input.type ids last) := by
  have room : ∀ link ∈ g.links, ∀ node, g.node? link.origin = some node →
      node.inputs.length + link.originSlot.toNat < UInt64.size := by
    intro link member node found
    have small := slots link member
    have short := sized node (List.mem_of_find?_eq_some found)
    simp only [UInt64.size]
    omega
  rw [resolveInput_eq]
  cases there : g.inputAt? id slot with
  | none => simp
  | some input =>
    cases fed : g.incoming? id slot with
    | none => simp
    | some first =>
      have member := mem_of_incoming? fed
      simp [follow_eq_some_iff room member, follow_eq_none_iff room member]

-- What the bypassed node gives depends on the type: an image comes from the loader through the first reroute, while a
-- mask would have to come, through the other reroute, from the bypassed node itself.
def mixerNode : Node :=
  { Node.plain (.number 3) "Mixer" with
    mode := .bypassed
    inputs := [{ InputSlot.plain "mask" "MASK" with link := some 5 },
      { InputSlot.plain "image" "IMAGE" with link := some 2 }]
    outputs := [{ OutputSlot.plain "image" "IMAGE" with links := some [3, 4, 6] }] }

def mixedGraph : Graph where
  nodes := [
    { Node.plain (.number 1) "Loader" with outputs := [{ OutputSlot.plain "image" "IMAGE" with links := some [1] }] },
    relayNode 2 1 [2], mixerNode, relayNode 5 6 [5],
    { Node.plain (.number 4) "Blur" with
      inputs := [{ InputSlot.plain "image" "IMAGE" with link := some 3 },
        { InputSlot.plain "mask" "MASK" with link := some 4 }] }]
  links := [⟨1, .number 1, 0, .number 2, 0, "IMAGE"⟩, ⟨2, .number 2, 0, .number 3, 1, "IMAGE"⟩,
    ⟨3, .number 3, 0, .number 4, 0, "IMAGE"⟩, ⟨4, .number 3, 0, .number 4, 1, "MASK"⟩,
    ⟨5, .number 5, 0, .number 3, 0, "MASK"⟩, ⟨6, .number 3, 0, .number 5, 0, "IMAGE"⟩]
  nextLinkId := 7

theorem resolveInput_walk_mixed :
    (∀ link ∈ mixedGraph.links, link.originSlot.toNat < 2 ^ 63) ∧
      (∀ node ∈ mixedGraph.nodes, node.inputs.length ≤ 2 ^ 63) ∧
      mixedGraph.resolveInput blurDefinitions.registry (.number 4) 0 = some ⟨.number 1, 0⟩ ∧
      mixedGraph.resolveInput blurDefinitions.registry (.number 4) 1 = none := by
  have slots : ∀ link ∈ mixedGraph.links, link.originSlot.toNat < 2 ^ 63 := by decide +kernel
  have sized : ∀ node ∈ mixedGraph.nodes, node.inputs.length ≤ 2 ^ 63 := by decide +kernel
  have bypassed : blurDefinitions.registry.participation mixerNode = .bypassed := by decide +kernel
  have virtual : ∀ id inward outward,
      blurDefinitions.registry.participation (relayNode id inward outward) = .virtual := by
    have through : blurDefinitions.registry.isPassThrough "Reroute" := by decide +kernel
    exact fun id inward outward => Registry.participation_of_isPassThrough through
  have image : mixedGraph.WalksBack blurDefinitions.registry "IMAGE" ⟨3, .number 3, 0, .number 4, 0, "IMAGE"⟩
      [.number 3, .number 2] ⟨1, .number 1, 0, .number 2, 0, "IMAGE"⟩ := by
    refine .onward _ ⟨2, .number 2, 0, .number 3, 1, "IMAGE"⟩ _ mixerNode 1 _ (by decide +kernel) ?_
      (by decide +kernel) ?_
    · exact .first 0 1 bypassed (by decide +kernel) (by decide +kernel) (by decide +kernel)
    · exact .onward _ _ _ (relayNode 2 1 [2]) 0 _ (by decide +kernel) (.virtual 0 (virtual 2 1 [2]))
        (by decide +kernel) (.here _)
  have mask : mixedGraph.WalksBack blurDefinitions.registry "MASK" ⟨4, .number 3, 0, .number 4, 1, "MASK"⟩
      [.number 3, .number 5] ⟨6, .number 3, 0, .number 5, 0, "IMAGE"⟩ := by
    refine .onward _ ⟨5, .number 5, 0, .number 3, 0, "MASK"⟩ _ mixerNode 0 _ (by decide +kernel) ?_
      (by decide +kernel) ?_
    · exact .straight 0 bypassed (by decide +kernel)
    · exact .onward _ _ _ (relayNode 5 6 [5]) 0 _ (by decide +kernel) (.virtual 0 (virtual 5 6 [5]))
        (by decide +kernel) (.here _)
  refine ⟨slots, sized, ?_, ?_⟩
  · exact ((resolveInput_walk mixedGraph blurDefinitions.registry slots sized (.number 4) 0).1 _).2
      ⟨_, _, _, _, _, rfl, by decide +kernel, image, by decide +kernel, rfl, by decide +kernel, rfl⟩
  · exact (resolveInput_walk mixedGraph blurDefinitions.registry slots sized (.number 4) 1).2.2
      (.inr (.inr ⟨_, _, _, _, rfl, by decide +kernel, mask, by decide +kernel, .again (by decide +kernel)⟩))

end Graph
end Patchbay
