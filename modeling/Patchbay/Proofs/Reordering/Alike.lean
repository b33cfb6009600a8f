import Patchbay.Proofs.Compiler.Serialization
import Patchbay.Proofs.Primitive.Pass
import Patchbay.Proofs.Sequencing.Slots

/-!
Graphs that hold the same data, whatever the order of their nodes and links and whatever hangs at their sequencing
slots. Main statement: `Graph.SameData.serialize`, that their prompts are the same.
-/
set_option autoImplicit false

namespace Patchbay

theorem exists_of_map_eq {α β : Type} {f : α → β} {x y : Option α} (same : x.map f = y.map f) {a : α}
    (found : x = some a) : ∃ b, y = some b ∧ f a = f b := by
  rw [found, Option.map_some] at same
  obtain ⟨b, there, equal⟩ := Option.map_eq_some_iff.1 same.symm
  exact ⟨b, there, equal.symm⟩

/-! ### Nodes without the links of their sequencing slots -/

def InputSlot.unsequenced (slot : InputSlot) : InputSlot := if slot.isFlow then slot.unlinked else slot

def OutputSlot.unsequenced (slot : OutputSlot) : OutputSlot := if slot.isFlow then slot.unlinked else slot

def Node.unsequenced (node : Node) : Node :=
  { node with
    inputs := node.inputs.map (·.unsequenced)
    outputs := node.outputs.map (·.unsequenced) }

theorem InputSlot.type_unsequenced (slot : InputSlot) : slot.unsequenced.type = slot.type := by
  unfold unsequenced
  split <;> rfl

theorem OutputSlot.type_unsequenced (slot : OutputSlot) : slot.unsequenced.type = slot.type := by
  unfold unsequenced
  split <;> rfl

theorem InputSlot.isFlow_unsequenced (slot : InputSlot) : slot.unsequenced.isFlow = slot.isFlow := by
  rw [isFlow, type_unsequenced, isFlow]

theorem OutputSlot.isFlow_unsequenced (slot : OutputSlot) : slot.unsequenced.isFlow = slot.isFlow := by
  rw [isFlow, type_unsequenced, isFlow]

theorem InputSlot.widget_unsequenced (slot : InputSlot) : slot.unsequenced.widget = slot.widget := by
  unfold unsequenced
  split <;> rfl

theorem InputSlot.unsequenced_of_data {slot : InputSlot} (data : slot.isFlow = false) : slot.unsequenced = slot :=
  if_neg (by rw [data]; exact Bool.false_ne_true)

theorem OutputSlot.unsequenced_of_data {slot : OutputSlot} (data : slot.isFlow = false) : slot.unsequenced = slot :=
  if_neg (by rw [data]; exact Bool.false_ne_true)

namespace Node

theorem inputFlags_unsequenced (node : Node) :
    node.unsequenced.inputs.map (·.isFlow) = node.inputs.map (·.isFlow) := by
  rw [unsequenced, List.map_map]
  exact List.map_congr_left fun slot _ => slot.isFlow_unsequenced

theorem outputFlags_unsequenced (node : Node) :
    node.unsequenced.outputs.map (·.isFlow) = node.outputs.map (·.isFlow) := by
  rw [unsequenced, List.map_map]
  exact List.map_congr_left fun slot _ => slot.isFlow_unsequenced

section Same

variable {a b : Node} (same : a.unsequenced = b.unsequenced)

include same in
theorem inputFlags_congr : a.inputs.map (·.isFlow) = b.inputs.map (·.isFlow) := by
  rw [← a.inputFlags_unsequenced, same, b.inputFlags_unsequenced]

include same in
theorem outputFlags_congr : a.outputs.map (·.isFlow) = b.outputs.map (·.isFlow) := by
  rw [← a.outputFlags_unsequenced, same, b.outputFlags_unsequenced]

include same in
theorem dataInput_congr {i : Nat} {slot : InputSlot} (there : a.inputs[i]? = some slot) (data : slot.isFlow = false) :
    b.inputs[i]? = some slot := by
  have inputs := congrArg (fun node : Node => node.inputs[i]?) same
  simp only [unsequenced, List.getElem?_map, there, Option.map_some, InputSlot.unsequenced_of_data data] at inputs
  obtain ⟨other, found, equal⟩ := Option.map_eq_some_iff.1 inputs.symm
  have dataToo : other.isFlow = false := by rw [← other.isFlow_unsequenced, equal, data]
  rw [found, ← equal, InputSlot.unsequenced_of_data dataToo]

include same in
theorem dataOutput_congr {i : Nat} {slot : OutputSlot} (there : a.outputs[i]? = some slot)
    (data : slot.isFlow = false) : b.outputs[i]? = some slot := by
  have outputs := congrArg (fun node : Node => node.outputs[i]?) same
  simp only [unsequenced, List.getElem?_map, there, Option.map_some, OutputSlot.unsequenced_of_data data] at outputs
  obtain ⟨other, found, equal⟩ := Option.map_eq_some_iff.1 outputs.symm
  have dataToo : other.isFlow = false := by rw [← other.isFlow_unsequenced, equal, data]
  rw [found, ← equal, OutputSlot.unsequenced_of_data dataToo]

include same in
theorem virtualInput?_congr (slot : Word) : a.virtualInput? slot = b.virtualInput? slot := by
  rw [virtualInput?, virtualInput?, flowInputCount_congr (inputFlags_congr same),
    flowOutputCount_congr (outputFlags_congr same)]

theorem isDataInput_unsequenced (node : Node) (type : String) (index : Nat) :
    node.unsequenced.isDataInput type index = node.isDataInput type index := by
  rw [isDataInput, unsequenced, List.getElem?_map, Option.any_map, isDataInput]
  congr 1
  funext slot
  simp only [slot.isFlow_unsequenced, slot.type_unsequenced]

include same in
theorem bypassInput?_congr (type : String) (slot : Word) : a.bypassInput? type slot = b.bypassInput? type slot := by
  have holds : a.isDataInput type = b.isDataInput type := by
    funext index
    rw [← a.isDataInput_unsequenced, same, b.isDataInput_unsequenced]
  have size : a.inputs.length = b.inputs.length := by
    have lengths := congrArg List.length (inputFlags_congr same)
    rwa [List.length_map, List.length_map] at lengths
  rw [bypassInput?, bypassInput?, holds, size]

include same in
theorem participation_congr (r : Registry) : r.participation a = r.participation b := by
  have type : a.type = b.type := (congrArg Node.type same :)
  have mode : a.mode = b.mode := (congrArg Node.mode same :)
  rw [Registry.participation, Registry.participation, type, mode]

end Same

end Node

namespace Graph

/-- What the first data output of a node feeds. -/
def firstTargets? (g : Graph) (node : Node) : Option (List (NodeId × Nat)) :=
  node.outputs[node.flowOutputCount]?.map g.targetsOf

/-- The graphs have the same nodes but for the links of sequencing slots, and the same links wherever data comes
from or goes to. -/
structure SameData (g h : Graph) : Prop where
  nodes : ∀ id, (g.node? id).map (·.unsequenced) = (h.node? id).map (·.unsequenced)
  fed : ∀ id node slot input, g.node? id = some node → node.inputs[slot]? = some input → input.isFlow = false →
    g.incoming? id slot = h.incoming? id slot
  passed : ∀ id node slot, g.node? id = some node →
    (node.virtualInput? slot).bind (g.incoming? id) = (node.virtualInput? slot).bind (h.incoming? id)
  targets : ∀ id, (g.node? id).bind g.firstTargets? = (h.node? id).bind h.firstTargets?

namespace SameData

theorem of_eq {g h : Graph} (node : g.node? = h.node?) (link : g.link? = h.link?) : g.SameData h where
  nodes id := by rw [node]
  fed id _ slot _ _ _ _ := by rw [incoming?, incoming?, node, link]
  passed id _ slot _ := by
    have incoming : g.incoming? = h.incoming? := by
      funext id slot
      rw [incoming?, incoming?, node, link]
    rw [incoming]
  targets id := by
    have targets : g.firstTargets? = h.firstTargets? := by
      funext node
      have listed : g.targetsOf = h.targetsOf := by
        funext slot
        rw [targetsOf, targetsOf, link]
      rw [firstTargets?, firstTargets?, listed]
    rw [node, targets]

section Same

variable {g h : Graph} (same : g.SameData h)

include same in
theorem exists_node {id : NodeId} {node : Node} (found : g.node? id = some node) :
    ∃ other, h.node? id = some other ∧ node.unsequenced = other.unsequenced :=
  exists_of_map_eq (same.nodes id) found

include same in
theorem node?_eq_none {id : NodeId} (absent : g.node? id = none) : h.node? id = none := by
  have views := same.nodes id
  rw [absent] at views
  exact Option.map_eq_none_iff.1 views.symm

include same in
theorem mem_nodeIds (id : NodeId) : id ∈ g.nodeIds ↔ id ∈ h.nodeIds := by
  have views := congrArg Option.isSome (same.nodes id)
  rw [Option.isSome_map, Option.isSome_map] at views
  rw [g.mem_nodeIds_iff, h.mem_nodeIds_iff, views]

include same in
theorem bypassed {id : NodeId} {node other : Node} (found : g.node? id = some node)
    (alike : node.unsequenced = other.unsequenced) (type : String) (slot : Word) :
    (node.bypassInput? type slot).bind (g.incoming? id) = (other.bypassInput? type slot).bind (h.incoming? id) := by
  rw [← Node.bypassInput?_congr alike]
  cases chosen : node.bypassInput? type slot with
  | none => rfl
  | some index =>
    have data : node.isDataInput type index = true := List.find?_some chosen
    obtain ⟨input, there, holds⟩ := (Option.any_eq_true ..).1 data
    rw [Bool.and_eq_true, Bool.not_eq_true'] at holds
    exact same.fed id node index input found there holds.1

include same in
-- A walk that comes to a node reads this much of it.
theorem exists_step {id : NodeId} {node : Node} (found : g.node? id = some node) (r : Registry) (type : String)
    (slot : Word) : ∃ other, h.node? id = some other ∧ other.id = node.id ∧
      r.participation other = r.participation node ∧
      (other.virtualInput? slot).bind (h.incoming? node.id) = (node.virtualInput? slot).bind (g.incoming? node.id) ∧
      (other.bypassInput? type slot).bind (h.incoming? node.id) =
        (node.bypassInput? type slot).bind (g.incoming? node.id) := by
  obtain ⟨other, there, alike⟩ := same.exists_node found
  refine ⟨other, there, (congrArg Node.id alike.symm :), (Node.participation_congr alike r).symm, ?_, ?_⟩
  · rw [id_of_node? found, ← Node.virtualInput?_congr alike]
    exact (same.passed id node slot found).symm
  · rw [id_of_node? found]
    exact (same.bypassed found alike type slot).symm

include same in
theorem follow (r : Registry) (type : String) {unvisited others : List NodeId}
    (members : ∀ id, id ∈ unvisited ↔ id ∈ others) (link : Link) :
    g.follow r type unvisited link = h.follow r type others link := by
  have fewer : ∀ {u v : List NodeId} (gone : NodeId), (∀ id, id ∈ u ↔ id ∈ v) →
      ∀ id, id ∈ without gone u ↔ id ∈ without gone v := by
    intro u v gone all id
    rw [without, without, List.mem_filter, List.mem_filter, all id]
  fun_induction Graph.follow g r type unvisited link generalizing others with
  | case1 unvisited link absent => rw [Graph.follow, same.node?_eq_none absent]
  | case2 unvisited link node found unseen normal =>
    obtain ⟨other, there, sameId, role, _⟩ := same.exists_step found r type link.originSlot
    rw [Graph.follow, there]
    simp only [sameId, role, normal, (members _).1 unseen, if_true]
  | case3 unvisited link node found unseen muted =>
    obtain ⟨other, there, sameId, role, _⟩ := same.exists_step found r type link.originSlot
    rw [Graph.follow, there]
    simp only [sameId, role, muted, (members _).1 unseen, if_true]
  | case4 unvisited link node found unseen virtual next fed ih =>
    obtain ⟨other, there, sameId, role, through, _⟩ := same.exists_step found r type link.originSlot
    rw [Graph.follow.eq_def h, there]
    simp only [sameId, role, virtual, through, fed, (members _).1 unseen, if_true]
    exact ih (fewer _ members)
  | case5 unvisited link node found unseen virtual unfed =>
    obtain ⟨other, there, sameId, role, through, _⟩ := same.exists_step found r type link.originSlot
    rw [Graph.follow.eq_def h, there]
    simp only [sameId, role, virtual, through, unfed, (members _).1 unseen, if_true]
  | case6 unvisited link node found unseen bypassed next fed ih =>
    obtain ⟨other, there, sameId, role, _, through⟩ := same.exists_step found r type link.originSlot
    rw [Graph.follow.eq_def h, there]
    simp only [sameId, role, bypassed, through, fed, (members _).1 unseen, if_true]
    exact ih (fewer _ members)
  | case7 unvisited link node found unseen bypassed unfed =>
    obtain ⟨other, there, sameId, role, _, through⟩ := same.exists_step found r type link.originSlot
    rw [Graph.follow.eq_def h, there]
    simp only [sameId, role, bypassed, through, unfed, (members _).1 unseen, if_true]
  | case8 unvisited link node found seen =>
    obtain ⟨other, there, sameId, _⟩ := same.exists_step found r type link.originSlot
    rw [Graph.follow, there]
    simp only [sameId, mt (members _).2 seen, if_false]

/-! ### Prompts -/

include same in
theorem resolveInput {id : NodeId} {node : Node} (found : g.node? id = some node) (r : Registry) {slot : Nat}
    {input : InputSlot} (there : node.inputs[slot]? = some input) (data : input.isFlow = false) :
    g.resolveInput r id slot = h.resolveInput r id slot := by
  obtain ⟨other, foundToo, alike⟩ := same.exists_node found
  have thereToo := Node.dataInput_congr alike there data
  simp only [Graph.resolveInput, found, foundToo, there, thereToo, same.fed id node slot input found there data,
    Option.bind_eq_bind, Option.bind_some, same.follow r input.type same.mem_nodeIds]

include same in
theorem reference (producer : Producer) : g.reference producer = h.reference producer := by
  have counts := congrArg (Option.map (·.flowOutputCount)) (same.nodes producer.node)
  rw [Option.map_map, Option.map_map] at counts
  have kept : ((·.flowOutputCount) ∘ (·.unsequenced) : Node → Nat) = (·.flowOutputCount) := by
    funext node
    exact Node.flowOutputCount_congr node.outputFlags_unsequenced
  rw [kept] at counts
  rw [Graph.reference, Graph.reference, counts]

include same in
theorem linkedInput? {id : NodeId} {node other : Node} (found : g.node? id = some node)
    (foundToo : h.node? id = some other) (r : Registry) {entry : InputSlot × Nat}
    (member : entry ∈ node.inputs.zipIdx) : g.linkedInput? r node entry = h.linkedInput? r other entry := by
  have there := List.mk_mem_zipIdx_iff_getElem?.1 member
  rw [Graph.linkedInput?, Graph.linkedInput?, id_of_node? found, id_of_node? foundToo]
  cases data : entry.1.isFlow with
  | true => rfl
  | false =>
    have sameReference : g.reference = h.reference := funext same.reference
    rw [same.resolveInput found r there data, sameReference]

-- Only data inputs count.
theorem filterMap_linkedInput? (r : Registry) (node : Node) (inputs : List InputSlot) :
    inputs.zipIdx.filterMap (g.linkedInput? r node) =
      (inputs.map (·.unsequenced)).zipIdx.filterMap (g.linkedInput? r node) := by
  rw [List.zipIdx_map, List.filterMap_map]
  apply List.filterMap_congr
  intro entry _
  cases data : entry.1.isFlow with
  | true => simp [Graph.linkedInput?, data, InputSlot.isFlow_unsequenced]
  | false => rw [Function.comp, Prod.map, InputSlot.unsequenced_of_data data, id]

include same in
theorem instruction {id : NodeId} {node other : Node} (found : g.node? id = some node)
    (foundToo : h.node? id = some other) (alike : node.unsequenced = other.unsequenced) (defs : Definitions) :
    g.instruction defs node = h.instruction defs other := by
  have type : node.type = other.type := (congrArg Node.type alike :)
  have literals : literals defs node = literals defs other := (congrArg (Graph.literals defs) alike :)
  have inputs : node.inputs.map (·.unsequenced) = other.inputs.map (·.unsequenced) := (congrArg Node.inputs alike :)
  have linked : node.inputs.zipIdx.filterMap (g.linkedInput? defs.registry node) =
      other.inputs.zipIdx.filterMap (h.linkedInput? defs.registry other) := by
    rw [List.filterMap_congr fun _ member => same.linkedInput? found foundToo defs.registry member,
      filterMap_linkedInput?, inputs, ← filterMap_linkedInput?]
  rw [instruction_eq, instruction_eq, inputWrites, inputWrites, type, literals, linked]

end Same

theorem symm {g h : Graph} (same : g.SameData h) : h.SameData g := by
  have found : ∀ {id : NodeId} {node : Node}, h.node? id = some node →
      ∃ other, g.node? id = some other ∧ node.unsequenced = other.unsequenced :=
    fun there => exists_of_map_eq (same.nodes _).symm there
  constructor
  · exact fun id => (same.nodes id).symm
  · intro id node slot input there place data
    obtain ⟨other, foundToo, alike⟩ := found there
    exact (same.fed id other slot input foundToo (Node.dataInput_congr alike place data) data).symm
  · intro id node slot there
    obtain ⟨other, foundToo, alike⟩ := found there
    rw [Node.virtualInput?_congr alike]
    exact (same.passed id other slot foundToo).symm
  · exact fun id => (same.targets id).symm

section Serialize

variable {g h : Graph} (same : g.SameData h) (displaysG : (g.nodeIds.map NodeId.display).Nodup)
  (displaysH : (h.nodeIds.map NodeId.display).Nodup) (defs : Definitions)

include same displaysG displaysH in
theorem emits {key : String} {i : Instruction} (emitted : ∃ node ∈ g.nodes,
      defs.registry.participation node = .normal ∧ node.id.display = key ∧ g.instruction defs node = i) :
    ∃ node ∈ h.nodes, defs.registry.participation node = .normal ∧ node.id.display = key ∧
      h.instruction defs node = i := by
  obtain ⟨node, member, normal, rfl, rfl⟩ := emitted
  have found := (node?_eq_some_iff (displaysG.of_map _) node.id node).2 ⟨member, rfl⟩
  obtain ⟨other, foundToo, alike⟩ := same.exists_node found
  obtain ⟨memberToo, sameId⟩ := (node?_eq_some_iff (displaysH.of_map _) node.id other).1 foundToo
  refine ⟨other, memberToo, (Node.participation_congr alike _).symm.trans normal, congrArg NodeId.display sameId, ?_⟩
  exact (same.instruction found foundToo alike defs).symm

include same displaysG displaysH in
theorem serialize {orderG orderH : List NodeId} (allG : ∀ id ∈ g.nodeIds, id ∈ orderG)
    (allH : ∀ id ∈ h.nodeIds, id ∈ orderH) : g.serialize defs orderG = h.serialize defs orderH := by
  rw [serialize_eq displaysG defs allG, serialize_eq displaysH defs allH]
  apply Table.ext_get?
  intro key
  apply Option.ext
  intro i
  rw [get?_emitted displaysG defs allG, get?_emitted displaysH defs allH]
  exact ⟨same.emits displaysG displaysH defs, same.symm.emits displaysH displaysG defs⟩

end Serialize

end SameData

end Graph
end Patchbay
