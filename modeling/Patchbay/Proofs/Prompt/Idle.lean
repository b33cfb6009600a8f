import Patchbay.Proofs.Compiler.Serialization
import Patchbay.Proofs.Graph.Forwards
import Patchbay.Proofs.Reordering.Alike

/-!
A node that gives no instruction shows in a prompt only through the walks that come to it. Graphs that differ by
such a node, and by the links that hang at the others, have the same prompts as soon as the same producers are found.
-/
set_option autoImplicit false

namespace Patchbay

namespace Node

theorem flowOutputCount_unlinked (node : Node) : node.unlinked.flowOutputCount = node.flowOutputCount :=
  List.countP_map ..

/-- The input through which a node passes on what is asked of an output, if it passes on anything. -/
def passedInput? (node : Node) (r : Registry) (type : String) (slot : Word) : Option Nat :=
  match r.participation node with
  | .virtual => node.virtualInput? slot
  | .bypassed => node.bypassInput? type slot
  | .normal | .muted => none

theorem virtualInput?_unlinked (node : Node) (slot : Word) : node.unlinked.virtualInput? slot = node.virtualInput? slot := by
  rw [virtualInput?, flowOutputCount_unlinked, Graph.flowInputCount_unlinked, virtualInput?]

theorem bypassInput?_unlinked (node : Node) (type : String) (slot : Word) :
    node.unlinked.bypassInput? type slot = node.bypassInput? type slot := by
  have holds : node.unlinked.isDataInput type = node.isDataInput type := by
    funext index
    rw [isDataInput, unlinked, List.getElem?_map, Option.any_map, isDataInput]
    rfl
  have size : node.unlinked.inputs.length = node.inputs.length := List.length_map _
  rw [bypassInput?, bypassInput?, holds, size]

theorem passedInput?_congr {a b : Node} (same : a.unlinked = b.unlinked) (r : Registry) (type : String) (slot : Word) :
    a.passedInput? r type slot = b.passedInput? r type slot := by
  have view : ∀ node : Node, node.unlinked.passedInput? r type slot = node.passedInput? r type slot := by
    intro node
    rw [passedInput?, virtualInput?_unlinked, bypassInput?_unlinked]
    rfl
  rw [← view a, same, view b]

theorem participation_of_unlinked {a b : Node} (same : a.unlinked = b.unlinked) (r : Registry) :
    r.participation a = r.participation b := (congrArg r.participation same :)

end Node

namespace Graph

/-- A walk in one step: the node at the origin of the link gives the value itself, or passes on that of one input. -/
theorem follow_eq (g : Graph) (r : Registry) (type : String) (unvisited : List NodeId) (link : Link) :
    g.follow r type unvisited link = (g.node? link.origin).bind fun node =>
      if link.origin ∈ unvisited then
        if r.participation node = .normal then some ⟨link.origin, link.originSlot⟩
        else ((node.passedInput? r type link.originSlot).bind (g.incoming? link.origin)).bind
          (g.follow r type (without link.origin unvisited))
      else none := by
  rw [follow]
  cases found : g.node? link.origin with
  | none => rfl
  | some node =>
    simp only [id_of_node? found, Option.bind_some]
    by_cases unseen : link.origin ∈ unvisited
    · rw [if_pos unseen, if_pos unseen, Node.passedInput?]
      cases r.participation node with
      | normal => rfl
      | muted => rfl
      | virtual => cases (node.virtualInput? link.originSlot).bind (g.incoming? link.origin) <;> rfl
      | bypassed => cases (node.bypassInput? type link.originSlot).bind (g.incoming? link.origin) <;> rfl
    · rw [if_neg unseen, if_neg unseen]

/-- Two walks are in step at a node that the graphs have in common, if they are wherever it passes them on to. -/
theorem follow_step {g h : Graph} {r : Registry} {type : String} {unvisited left : List NodeId} {link : Link}
    {change : Link → Option Link}
    (nodes : (g.node? link.origin).map (·.unlinked) = (h.node? link.origin).map (·.unlinked))
    (fed : ∀ slot, h.incoming? link.origin slot = (g.incoming? link.origin slot).bind change)
    (same : link.origin ∈ left ↔ link.origin ∈ unvisited)
    (onward : link.origin ∈ unvisited → ∀ slot next, g.incoming? link.origin slot = some next →
      (change next).bind (h.follow r type (without link.origin left)) =
        g.follow r type (without link.origin unvisited) next) :
    h.follow r type left link = g.follow r type unvisited link := by
  rw [follow_eq, follow_eq]
  cases found : g.node? link.origin with
  | none =>
    rw [found] at nodes
    rw [Option.map_eq_none_iff.1 nodes.symm]
    rfl
  | some node =>
    rw [found] at nodes
    obtain ⟨other, foundToo, alike⟩ := Option.map_eq_some_iff.1 nodes.symm
    simp only [foundToo, Option.bind_some, same, Node.participation_of_unlinked alike r, Node.passedInput?_congr alike]
    by_cases unseen : link.origin ∈ unvisited
    · by_cases normal : r.participation node = .normal
      · simp only [if_pos unseen, if_pos normal]
      · simp only [if_pos unseen, if_neg normal]
        cases node.passedInput? r type link.originSlot with
        | none => rfl
        | some input =>
          rw [Option.bind_some, Option.bind_some, fed]
          cases arrives : g.incoming? link.origin input with
          | none => rfl
          | some next => exact onward unseen input next arrives
    · simp only [if_neg unseen]

theorem mem_without_iff {id gone : NodeId} {ids : List NodeId} : id ∈ without gone ids ↔ id ∈ ids ∧ id ≠ gone := by
  rw [without, List.mem_filter, decide_eq_true_eq]

theorem without_congr {unvisited left : List NodeId} {id : NodeId} (same : id ∈ left ↔ id ∈ unvisited) (gone : NodeId) :
    id ∈ without gone left ↔ id ∈ without gone unvisited := by
  rw [mem_without_iff, mem_without_iff, same]

-- Of the input itself only the type counts.
theorem resolveInput_eq (g : Graph) (r : Registry) (id : NodeId) (slot : Nat) :
    g.resolveInput r id slot = ((g.inputAt? id slot).map (·.type)).bind fun type =>
      (g.incoming? id slot).bind (g.follow r type g.nodeIds) := by
  rw [resolveInput, inputAt?]
  cases g.node? id with
  | none => rfl
  | some node => cases found : node.inputs[slot]? <;> simp [found]

theorem typeAt_congr {g h : Graph} {id : NodeId} (same : (g.node? id).map (·.unlinked) = (h.node? id).map (·.unlinked))
    (slot : Nat) : (g.inputAt? id slot).map (·.type) = (h.inputAt? id slot).map (·.type) := by
  have types := congrArg (fun node : Option Node => (node.bind (·.inputs[slot]?)).map (·.type)) same
  have view : ∀ node : Node, node.unlinked.inputs[slot]?.map (·.type) = node.inputs[slot]?.map (·.type) := by
    intro node
    rw [Node.unlinked, List.getElem?_map, Option.map_map]
    rfl
  simpa only [inputAt?, Option.bind_map, Option.map_bind, Function.comp_def, view] using types

theorem resolveInput_congr {g h : Graph} {r : Registry} {id : NodeId} {slot : Nat}
    (same : (g.node? id).map (·.unlinked) = (h.node? id).map (·.unlinked))
    (walks : ∀ type, (g.incoming? id slot).bind (g.follow r type g.nodeIds) =
      (h.incoming? id slot).bind (h.follow r type h.nodeIds)) : g.resolveInput r id slot = h.resolveInput r id slot := by
  rw [resolveInput_eq, resolveInput_eq, typeAt_congr same, funext walks]

/-! ### Instructions -/

-- What a data input brings in, told without the link that it holds.
def broughtIn? (g : Graph) (r : Registry) (id : NodeId) (entry : InputSlot × Nat) : Option (String × InputValue) :=
  if entry.1.isFlow then none
  else (g.resolveInput r id entry.2).map fun producer => (entry.1.name, g.reference producer)

theorem resolveInput_of_unconnected {g : Graph} {id : NodeId} {slot : Nat} (unfed : g.incoming? id slot = none)
    (r : Registry) : g.resolveInput r id slot = none := by
  rw [resolveInput_eq, unfed]
  cases g.inputAt? id slot <;> rfl

theorem filterMap_linkedInput? {g : Graph} {node : Node} (found : g.node? node.id = some node) (r : Registry) :
    node.inputs.zipIdx.filterMap (g.linkedInput? r node) =
      node.unlinked.inputs.zipIdx.filterMap (g.broughtIn? r node.id) := by
  rw [Node.unlinked, List.zipIdx_map, List.filterMap_map]
  apply List.filterMap_congr
  rintro ⟨slot, index⟩ member
  have there := List.mk_mem_zipIdx_iff_getElem?.1 member
  have same : (g.broughtIn? r node.id ∘ Prod.map InputSlot.unlinked id) (slot, index) =
      g.broughtIn? r node.id (slot, index) := rfl
  rw [same, linkedInput?, broughtIn?]
  cases held : slot.link with
  | some link => simp
  | none =>
    have unfed : g.incoming? node.id index = none := by simp [incoming?, found, Node.inputLink, there, held]
    simp [resolveInput_of_unconnected unfed]

theorem emission?_of_quiet {g : Graph} {defs : Definitions} {id : NodeId}
    (quiet : ∀ node, g.node? id = some node → defs.registry.participation node ≠ .normal) :
    g.emission? defs id = none := by
  rw [emission?]
  cases found : g.node? id with
  | none => rfl
  | some node => simp [quiet node found]

-- The order is of no account as long as no node is left out.
theorem serialize_of_covering {g : Graph} (displays : (g.nodeIds.map NodeId.display).Nodup) (defs : Definitions)
    {order other : List NodeId} (all : ∀ id ∈ g.nodeIds, id ∈ order) (allOther : ∀ id ∈ g.nodeIds, id ∈ other) :
    g.serialize defs order = g.serialize defs other :=
  (SameData.of_eq rfl rfl).serialize displays displays defs all allOther

/-! ### Graphs beside each other -/

/-- The graphs have the same nodes, but for links and for one id under which neither of them has a node that gives an
instruction. -/
structure Beside (r : Registry) (idle : NodeId) (g h : Graph) : Prop where
  nodes : ∀ id, id ≠ idle → (g.node? id).map (·.unlinked) = (h.node? id).map (·.unlinked)
  quiet : ∀ node, g.node? idle = some node → r.participation node ≠ .normal
  quietToo : ∀ node, h.node? idle = some node → r.participation node ≠ .normal

section Beside

variable {defs : Definitions} {idle : NodeId} {g h : Graph} (beside : Beside defs.registry idle g h)

include beside in
theorem Beside.exists_node {id : NodeId} (apart : id ≠ idle) {node : Node} (found : g.node? id = some node) :
    ∃ other, h.node? id = some other ∧ other.unlinked = node.unlinked := by
  have same := beside.nodes id apart
  rw [found] at same
  exact Option.map_eq_some_iff.1 same.symm

include beside in
theorem Beside.reference {producer : Producer} (apart : producer.node ≠ idle) :
    g.reference producer = h.reference producer := by
  have count : (g.node? producer.node).map (·.flowOutputCount) = (h.node? producer.node).map (·.flowOutputCount) := by
    have counts := congrArg (Option.map (·.flowOutputCount)) (beside.nodes producer.node apart)
    simpa only [Option.map_map, Function.comp_def, Node.flowOutputCount_unlinked] using counts
  rw [Graph.reference, Graph.reference, count]

variable (found : ∀ id, id ≠ idle → ∀ slot, g.resolveInput defs.registry id slot = h.resolveInput defs.registry id slot)

include beside found in
theorem Beside.broughtIn? {id : NodeId} (apart : id ≠ idle) :
    g.broughtIn? defs.registry id = h.broughtIn? defs.registry id := by
  funext entry
  rw [Graph.broughtIn?, Graph.broughtIn?, ← found id apart]
  cases resolved : g.resolveInput defs.registry id entry.2 with
  | none => rfl
  | some producer =>
    obtain ⟨source, there, normal⟩ := resolveInput_normal resolved
    have other : producer.node ≠ idle := fun same => beside.quiet source (same ▸ there) normal
    simp only [Option.map_some, beside.reference other]

include beside found in
theorem Beside.instruction {node other : Node} (there : g.node? node.id = some node) (apart : node.id ≠ idle)
    (thereToo : h.node? node.id = some other) (alike : other.unlinked = node.unlinked) :
    g.instruction defs node = h.instruction defs other := by
  have sameId : other.id = node.id := id_of_node? thereToo
  have type : other.type = node.type := (congrArg Node.type alike :)
  have literals : literals defs other = literals defs node := (congrArg (Graph.literals defs) alike :)
  have linked := filterMap_linkedInput? there defs.registry
  have linkedToo := filterMap_linkedInput? (sameId ▸ thereToo) defs.registry
  rw [sameId, alike, ← beside.broughtIn? found apart] at linkedToo
  rw [instruction_eq, instruction_eq, inputWrites, inputWrites, type, literals, linked, linkedToo]

include beside found in
theorem Beside.emission? (id : NodeId) : g.emission? defs id = h.emission? defs id := by
  by_cases here : id = idle
  · subst here
    rw [emission?_of_quiet beside.quiet, emission?_of_quiet beside.quietToo]
  · rw [Graph.emission?, Graph.emission?]
    cases there : g.node? id with
    | none =>
      have same := beside.nodes id here
      rw [there] at same
      rw [Option.map_eq_none_iff.1 same.symm, Option.bind_none, Option.bind_none]
    | some node =>
      obtain ⟨other, thereToo, alike⟩ := beside.exists_node here there
      have own : node.id = id := id_of_node? there
      subst own
      have role := Node.participation_of_unlinked alike defs.registry
      rw [thereToo, Option.bind_some, Option.bind_some, role, id_of_node? thereToo,
        beside.instruction found there here thereToo alike]

include beside found in
theorem Beside.serialize (order : List NodeId) : g.serialize defs order = h.serialize defs order := by
  have same : g.emission? defs = h.emission? defs := funext (beside.emission? found)
  rw [Graph.serialize, Graph.serialize, foldl_addInstruction, foldl_addInstruction, same]

end Beside

end Graph
end Patchbay
