import Patchbay.Graph.Producer
import Patchbay.Group.Definitions

/-!
Replacing group instances by the members of their groups. Links to the instance are moved to the member
slots that its own slots stand for, and members that are groups themselves are expanded in turn. A group that
contains itself stays as it is where it is met again.
-/
set_option autoImplicit false

namespace Patchbay

namespace Definitions

/-- The members of a config whose types are known, by position. -/
def knownMembers (defs : Definitions) (config : GroupConfig) : List (Nat × Node) :=
  (config.nodes.zipIdx.filter fun (node, _) => defs.isKnown node.type).map fun (node, index) =>
    (index, node)

def unknownTypes (defs : Definitions) (config : GroupConfig) : List String :=
  (config.nodes.filter fun node => !defs.isKnown node.type).map (·.type)

/-- A member of this position becomes a node of its own. -/
def places (defs : Definitions) (config : GroupConfig) (member : Nat) : Bool :=
  (config.nodes[member]?).any fun node => defs.isKnown node.type

end Definitions

/-- Hands a value of the instance to the widget of a member; `null` is no value. -/
def passValue (defs : Definitions) (instanceWidgets : List Widget) (op : Operation) (node : Node)
    (inner : MemberWidget) : Node :=
  match instanceWidgets.find? fun widget => widget.name == inner.exposed && !widget.value.isNull with
  | some widget => (node.setWidget? op defs.registry inner.name widget.value).getD node
  | none => node

namespace GroupDef

/-- The node that a member becomes: its template under a new id, unlinked, with the widget values that
the instance has for it. -/
def placeMember (group : GroupDef) (defs : Definitions) (place : Node) (member : Nat)
    (template : Node) : Node :=
  let node := { template.unlinked with id := place.id.member member }
  match defs.operation? node.type with
  | none => node
  | some op =>
    let widgets := place.bindWidgets group.operation defs.registry
    (group.exposure.widgetsOf member).foldl (passValue defs widgets op) node

def placedMembers (group : GroupDef) (defs : Definitions) (place : Node) : List Node :=
  (defs.knownMembers group.config).map fun (member, template) =>
    group.placeMember defs place member template

end GroupDef

namespace Graph

/-- The type of the output slot that a new link leaves. -/
def outputType (g : Graph) (id : NodeId) (slot : Word) : String :=
  ((g.node? id).bind fun node => node.outputs[slot.toNat]?.map (·.type)).getD InputDef.anyType

/-- Adds a link between two members, if both were placed. -/
def addInnerLink (defs : Definitions) (config : GroupConfig) (place : NodeId) (g : Graph)
    (link : GroupLink) : Graph :=
  match link.origin with
  | none => g
  | some origin =>
    if defs.places config origin.toNat && defs.places config link.target.toNat then
      let originId := place.member origin.toNat
      let type := g.outputType originId link.originSlot
      let (id, g) := g.allocate
      g.insertLink ⟨id, originId, link.originSlot, place.member link.target.toNat, link.targetSlot, type⟩
    else g

/-- Moves the link into an input of the instance to the member slot that the input stands for; without
one, the link is removed. -/
def moveInput (defs : Definitions) (group : GroupDef) (place : NodeId) (g : Graph)
    (entry : InputSlot × Nat) : Graph :=
  match entry.1.link.bind g.link? with
  | none => g
  | some link =>
    match (group.exposure.inputTarget? entry.2).filter (defs.places group.config ·.member) with
    | some inner =>
      g.insertLink { link with
        target := place.member inner.member
        targetSlot := .ofCount inner.slot }
    | none => g.removeLink link.id

/-- Moves one link to a new producer, or removes it. -/
def moveOrigin (producer : Option Producer) (g : Graph) (id : LinkId) : Graph :=
  match g.link? id with
  | none => g
  | some link =>
    match producer with
    | some producer =>
      g.insertLink { link with origin := producer.node, originSlot := producer.slot }
    | none => g.removeLink id

/-- Moves the links out of an output of the instance to the member output that it stands for, behind any
pass-through members. -/
def moveOutput (defs : Definitions) (group : GroupDef) (place : NodeId) (g : Graph)
    (entry : OutputSlot × Nat) : Graph :=
  let inner := (group.exposure.outputs[entry.2]?).filter (defs.places group.config ·.member)
  let producer := inner.bind fun inner =>
    g.resolvePassThrough defs.registry ⟨place.member inner.member, .ofCount inner.slot⟩
  entry.1.linkIds.foldl (moveOrigin producer) g

/-- Replaces one instance by the members of its group. -/
def expandInstance (g : Graph) (defs : Definitions) (place : Node) (group : GroupDef) : Graph :=
  let members := group.placedMembers defs place
  let g := g.insertNodes ((g.position? place.id).getD g.nodes.length) members
  let g := group.config.links.foldl (addInnerLink defs group.config place.id) g
  let g := ((place.inputs.drop place.flowInputCount).zipIdx).foldl (moveInput defs group place.id) g
  let g := ((place.outputs.drop place.flowOutputCount).zipIdx).foldl (moveOutput defs group place.id) g
  g.removeNode place.id

end Graph

/-- An instance that is still to be expanded, and the names of the groups that it came out of. -/
structure PendingInstance where
  id : NodeId
  lineage : List String
deriving DecidableEq

/-- A graph while its instances are being expanded, the types of members that had to be left out, and
the number of instances expanded so far. -/
structure ExpansionState where
  graph : Graph
  missing : List String
  expanded : Nat

namespace Definitions

/-- The node and the group of an instance that may be expanded: it takes part in the run, and its group is
not one of those it came out of. -/
def expandable? (defs : Definitions) (g : Graph) (entry : PendingInstance) : Option (Node × GroupDef) :=
  match g.node? entry.id with
  | none => none
  | some node =>
    match defs.group? node.type with
    | none => none
    | some group =>
      if defs.registry.participation node = .normal ∧ group.name ∉ entry.lineage then
        some (node, group)
      else none

def isInstance (defs : Definitions) (g : Graph) (id : NodeId) : Bool :=
  (g.node? id).any fun node => (defs.group? node.type).isSome

/-- The members of an expanded instance that are instances themselves. -/
def nestedInstances (defs : Definitions) (g : Graph) (entry : PendingInstance) (group : GroupDef) :
    List PendingInstance :=
  (((defs.knownMembers group.config).map fun (member, _) => entry.id.member member).filter
    (defs.isInstance g)).map (⟨·, entry.lineage ++ [group.name]⟩)

/-! ### Why the expansion comes to an end

An instance that is expanded makes way for fewer than `breadth` instances, and each of these may meet one
group less. -/

def groupNames (defs : Definitions) : List String := defs.groups.values.map (·.name)

/-- More than the members of any group. -/
def breadth (defs : Definitions) : Nat := (defs.groups.values.flatMap (·.config.nodes)).length + 1

/-- How many groups an instance may still meet. -/
def depth (defs : Definitions) (entry : PendingInstance) : Nat :=
  defs.groupNames.countP fun name => decide (name ∉ entry.lineage)

/-- More turns than an instance leads to that may still meet so many groups. -/
def turns (defs : Definitions) : Nat → Nat
  | 0 => 1
  | groups + 1 => defs.breadth * turns defs groups

def work (defs : Definitions) : List PendingInstance → Nat
  | [] => 0
  | entry :: queue => defs.turns (defs.depth entry) + work defs queue

theorem mem_values_of_group? {defs : Definitions} {type : String} {group : GroupDef}
    (found : defs.group? type = some group) : group ∈ defs.groups.values :=
  List.mem_map.2 ⟨(type, group), Table.mem_of_find found, rfl⟩

theorem expandable?_eq_some {defs : Definitions} {g : Graph} {entry : PendingInstance} {node : Node}
    {group : GroupDef} (found : defs.expandable? g entry = some (node, group)) :
    g.node? entry.id = some node ∧ defs.group? node.type = some group ∧
      defs.registry.participation node = .normal ∧ group.name ∉ entry.lineage := by
  unfold expandable? at found
  split at found
  · contradiction
  · next nodeFound =>
    split at found
    · contradiction
    · next groupFound =>
      split at found
      · next allowed =>
        simp only [Option.some.injEq, Prod.mk.injEq] at found
        obtain ⟨rfl, rfl⟩ := found
        exact ⟨nodeFound, groupFound, allowed⟩
      · contradiction

theorem members_lt_breadth {defs : Definitions} {group : GroupDef}
    (member : group ∈ defs.groups.values) : group.config.nodes.length < defs.breadth := by
  have inside : group.config.nodes ∈ defs.groups.values.map (·.config.nodes) := List.mem_map_of_mem member
  have fits := (List.sublist_flatten_of_mem inside).length_le
  rw [← List.flatMap_def] at fits
  exact Nat.lt_succ_of_le fits

theorem turns_pos (defs : Definitions) (groups : Nat) : 0 < defs.turns groups := by
  induction groups with
  | zero => exact Nat.one_pos
  | succ groups ih => exact Nat.mul_pos (Nat.succ_pos _) ih

theorem turns_mono (defs : Definitions) {fewer more : Nat} (le : fewer ≤ more) :
    defs.turns fewer ≤ defs.turns more := by
  induction le with
  | refl => exact Nat.le_refl _
  | step le ih => exact Nat.le_trans ih (Nat.le_mul_of_pos_left _ (Nat.succ_pos _))

theorem work_append (defs : Definitions) (front back : List PendingInstance) :
    defs.work (front ++ back) = defs.work front + defs.work back := by
  induction front with
  | nil => exact (Nat.zero_add _).symm
  | cons entry rest ih =>
    simp only [List.cons_append, work, ih]
    omega

theorem work_le {defs : Definitions} {queue : List PendingInstance} {bound : Nat}
    (each : ∀ entry ∈ queue, defs.turns (defs.depth entry) ≤ bound) : defs.work queue ≤ queue.length * bound := by
  induction queue with
  | nil => exact Nat.zero_le _
  | cons entry rest ih =>
    have head := each entry List.mem_cons_self
    have tail := ih fun later member => each later (List.mem_cons_of_mem _ member)
    simp only [work, List.length_cons, Nat.succ_mul]
    omega

theorem countP_lt_countP {α : Type} {p q : α → Bool} {xs : List α} (weaker : ∀ x, q x → p x) {a : α}
    (member : a ∈ xs) (left : p a) (right : ¬ q a) : xs.countP q < xs.countP p := by
  induction xs with
  | nil => cases member
  | cons x xs ih =>
    have rest : xs.countP q ≤ xs.countP p := List.countP_mono_left fun y _ => weaker y
    rcases List.mem_cons.1 member with rfl | member
    · simp only [List.countP_cons, left, right, if_true]
      simp only [Bool.false_eq_true, if_false]
      omega
    · have less := ih member
      rw [List.countP_cons, List.countP_cons]
      by_cases hit : q x
      · rw [if_pos hit, if_pos (weaker x hit)]
        omega
      · rw [if_neg hit]
        omega

theorem depth_nested_lt {defs : Definitions} {entry : PendingInstance} {group : GroupDef}
    (member : group ∈ defs.groups.values) (fresh : group.name ∉ entry.lineage) (id : NodeId) :
    defs.depth ⟨id, entry.lineage ++ [group.name]⟩ < defs.depth entry := by
  refine countP_lt_countP ?_ (List.mem_map_of_mem member) (by simpa using fresh) (by simp)
  intro name outside
  simp only [List.mem_append, decide_eq_true_eq] at outside ⊢
  exact fun inside => outside (.inl inside)

theorem work_nested_lt {defs : Definitions} {g : Graph} {entry : PendingInstance} {group : GroupDef}
    (member : group ∈ defs.groups.values) (fresh : group.name ∉ entry.lineage) :
    defs.work (defs.nestedInstances g entry group) < defs.turns (defs.depth entry) := by
  have each : ∀ e ∈ defs.nestedInstances g entry group,
      defs.turns (defs.depth e) ≤ defs.turns (defs.depth entry - 1) := by
    intro e nested
    obtain ⟨id, _, rfl⟩ := List.mem_map.1 nested
    have less := depth_nested_lt member fresh id
    exact defs.turns_mono (by omega)
  have few : (defs.nestedInstances g entry group).length < defs.breadth := by
    refine Nat.lt_of_le_of_lt ?_ (members_lt_breadth member)
    simp only [nestedInstances, knownMembers, List.length_map]
    refine Nat.le_trans (List.length_filter_le ..) ?_
    simp only [List.length_map]
    refine Nat.le_trans (List.length_filter_le ..) ?_
    simp
  have deep : defs.depth entry - 1 + 1 = defs.depth entry := by
    have less := depth_nested_lt member fresh entry.id
    omega
  calc defs.work (defs.nestedInstances g entry group)
      ≤ (defs.nestedInstances g entry group).length * defs.turns (defs.depth entry - 1) := work_le each
    _ < defs.breadth * defs.turns (defs.depth entry - 1) := Nat.mul_lt_mul_of_pos_right few (defs.turns_pos _)
    _ = defs.turns (defs.depth entry - 1 + 1) := rfl
    _ = defs.turns (defs.depth entry) := by rw [deep]

theorem work_tail_lt {defs : Definitions} {entry : PendingInstance} {queue : List PendingInstance} :
    defs.work queue < defs.work (entry :: queue) := by
  have positive := defs.turns_pos (defs.depth entry)
  rw [work]
  omega

theorem work_append_lt {defs : Definitions} {before after : Graph} {entry : PendingInstance}
    {queue : List PendingInstance} {node : Node} {group : GroupDef}
    (found : defs.expandable? before entry = some (node, group)) :
    defs.work (queue ++ defs.nestedInstances after entry group) < defs.work (entry :: queue) := by
  obtain ⟨_, groupFound, _, fresh⟩ := expandable?_eq_some found
  have less := work_nested_lt (g := after) (mem_values_of_group? groupFound) fresh
  rw [work_append, work]
  omega

end Definitions

/-- Expands the instances of a queue from its front; nested instances join at its end. -/
def expandQueue (defs : Definitions) (state : ExpansionState) (queue : List PendingInstance) :
    ExpansionState :=
  match queue with
  | [] => state
  | entry :: queue =>
    match _found : defs.expandable? state.graph entry with
    | none => expandQueue defs state queue
    | some (node, group) =>
      let graph := state.graph.expandInstance defs node group
      expandQueue defs
        ⟨graph, state.missing ++ defs.unknownTypes group.config, state.expanded + 1⟩
        (queue ++ defs.nestedInstances graph entry group)
termination_by defs.work queue
decreasing_by
  · exact Definitions.work_tail_lt
  · exact Definitions.work_append_lt _found

namespace Graph

/-- Replaces every instance that takes part in the run by its members, nested ones included. -/
def expandGroups (g : Graph) (defs : Definitions) (missing : List String) : ExpansionState :=
  expandQueue defs ⟨g, missing, 0⟩
    ((g.nodeIds.filter (defs.isInstance g)).map (⟨·, []⟩))

end Graph
end Patchbay
