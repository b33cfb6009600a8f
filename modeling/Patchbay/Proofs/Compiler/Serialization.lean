import Mathlib.Data.List.Induction
import Patchbay.Proofs.Graph.Nodes
import Patchbay.Prompt

/-!
The prompt of a graph, told instruction by instruction. An input of a name is the last producer found for
it, or else the last literal; every producer has an instruction of its own, so no link is taken out.
-/
set_option autoImplicit false

namespace Patchbay

def InputValue.isLink : InputValue → Bool
  | .link .. => true
  | .literal _ => false

/-! ### What an instruction is to hold -/

namespace Graph

/-- The producers of the connected data inputs of this name, from the first slot to the last. -/
def producers (g : Graph) (r : Registry) (node : Node) (name : String) : List Producer :=
  (node.inputs.zipIdx.filter fun (slot, _) => !slot.isFlow && slot.link.isSome && slot.name == name).filterMap
    fun (_, index) => g.resolveInput r node.id index

/-- How an input refers to an output: by the displayed id of the node and the place among its data outputs. -/
def reference (g : Graph) (producer : Producer) : InputValue :=
  .link producer.node.display
    (producer.slot.lower (((g.node? producer.node).map (·.flowOutputCount)).getD 0))

/-- The values of the widgets of this name that are sent. -/
def sentValues (defs : Definitions) (node : Node) (name : String) : List Json :=
  match defs.operation? node.type with
  | some op => ((node.bindWidgets op defs.registry).filter fun w => w.isSent && w.name == name).map (·.value)
  | none => []

/-- What an instruction says of an input. -/
def inputValue? (g : Graph) (defs : Definitions) (node : Node) (name : String) : Option InputValue :=
  match (g.producers defs.registry node name).getLast? with
  | some producer => some (g.reference producer)
  | none => (sentValues defs node name).getLast?.map .literal

end Graph

/-! ### One instruction -/

namespace Instruction

-- Stores the values from left to right, and for each whether it is a link.
def withInputs (i : Instruction) (values : List (String × InputValue)) : Instruction :=
  { i with
    inputs := i.inputs.insertAll values
    isInputLinked := i.isInputLinked.insertAll (values.map fun e => (e.1, e.2.isLink)) }

theorem withInputs_append (i : Instruction) (front back : List (String × InputValue)) :
    i.withInputs (front ++ back) = (i.withInputs front).withInputs back := by
  simp only [withInputs, Table.insertAll, List.map_append, List.foldl_append]

theorem foldl_setLiteral (widgets : List Widget) (i : Instruction) :
    widgets.foldl (fun i widget => i.setLiteral widget.name widget.value) i =
      i.withInputs (widgets.map fun widget => (widget.name, .literal widget.value)) := by
  induction widgets generalizing i with
  | nil => rfl
  | cons widget rest ih => exact ih (i.setLiteral widget.name widget.value)

end Instruction

namespace Graph

-- The name of a connected data input and the reference to its producer, if it has one.
def linkedInput? (g : Graph) (r : Registry) (node : Node) (entry : InputSlot × Nat) : Option (String × InputValue) :=
  if entry.1.isFlow || entry.1.link.isNone then none
  else (g.resolveInput r node.id entry.2).map fun producer => (entry.1.name, g.reference producer)

theorem linkInput_eq (g : Graph) (r : Registry) (node : Node) (i : Instruction) (entry : InputSlot × Nat) :
    g.linkInput r node i entry = i.withInputs (g.linkedInput? r node entry).toList := by
  obtain ⟨slot, index⟩ := entry
  rw [linkInput, linkedInput?]
  by_cases free : slot.isFlow || slot.link.isNone
  · simp only [if_pos free]
    rfl
  · simp only [if_neg free]
    cases g.resolveInput r node.id index with
    | none => rfl
    | some producer => rfl

theorem foldl_linkInput (g : Graph) (r : Registry) (node : Node) (entries : List (InputSlot × Nat)) (i : Instruction) :
    entries.foldl (g.linkInput r node) i = i.withInputs (entries.filterMap (g.linkedInput? r node)) := by
  induction entries generalizing i with
  | nil => rfl
  | cons entry rest ih =>
    rw [List.foldl_cons, ih, linkInput_eq, ← Instruction.withInputs_append, List.filterMap_cons]
    cases g.linkedInput? r node entry <;> rfl

theorem filter_linkedInputs (g : Graph) (r : Registry) (node : Node) (name : String) :
    ((node.inputs.zipIdx.filterMap (g.linkedInput? r node)).filter (·.1 == name)).map (·.2) =
      (g.producers r node name).map g.reference := by
  rw [producers, List.filter_filterMap, List.map_filterMap, List.map_filterMap, List.filterMap_filter]
  apply List.filterMap_congr
  rintro ⟨slot, index⟩ _
  simp only [linkedInput?]
  by_cases flow : slot.isFlow
  · simp [flow]
  · cases link : slot.link with
    | none => simp [flow]
    | some id =>
      by_cases named : slot.name = name
      · cases g.resolveInput r node.id index <;> simp [flow, named]
      · cases g.resolveInput r node.id index <;> simp [flow, named]

theorem filter_literals (defs : Definitions) (node : Node) (name : String) :
    (((literals defs node).map fun w => (w.name, InputValue.literal w.value)).filter (·.1 == name)).map (·.2) =
      (sentValues defs node name).map .literal := by
  rw [literals, sentValues]
  cases defs.operation? node.type with
  | none => rfl
  | some op =>
    simp only [List.filter_map, List.map_map, List.filter_filter]
    apply congrArg
    apply List.filter_congr
    intro w _
    exact Bool.and_comm _ _

-- Everything that is stored in an instruction, from first to last: literals ahead of links.
def inputWrites (g : Graph) (defs : Definitions) (node : Node) : List (String × InputValue) :=
  ((literals defs node).map fun w => (w.name, .literal w.value)) ++
    node.inputs.zipIdx.filterMap (g.linkedInput? defs.registry node)

theorem instruction_eq (g : Graph) (defs : Definitions) (node : Node) :
    g.instruction defs node = (Instruction.empty node.type).withInputs (g.inputWrites defs node) := by
  rw [inputWrites, Instruction.withInputs_append, ← Instruction.foldl_setLiteral, ← foldl_linkInput]
  rfl

theorem last_inputWrites (g : Graph) (defs : Definitions) (node : Node) (name : String) :
    ((g.inputWrites defs node).filter (·.1 == name)).getLast?.map (·.2) = g.inputValue? defs node name := by
  rw [← List.getLast?_map, inputWrites, List.filter_append, List.map_append, filter_linkedInputs, filter_literals,
    List.getLast?_append, List.getLast?_map, List.getLast?_map, inputValue?]
  cases (g.producers defs.registry node name).getLast? with
  | none => exact Option.none_or
  | some producer => rfl

theorem inputs_instruction (g : Graph) (defs : Definitions) (node : Node) (name : String) :
    (g.instruction defs node).inputs.get? name = g.inputValue? defs node name := by
  rw [instruction_eq, ← last_inputWrites]
  exact (Table.get?_insertAll _ _ name).trans Option.or_none

theorem isInputLinked_instruction (g : Graph) (defs : Definitions) (node : Node) (name : String) :
    (g.instruction defs node).isInputLinked.get? name = (g.inputValue? defs node name).map (·.isLink) := by
  rw [instruction_eq, ← last_inputWrites, Option.map_map]
  refine (Table.get?_insertAll _ _ name).trans (Option.or_none.trans ?_)
  rw [List.filter_map, List.getLast?_map, Option.map_map]
  rfl

/-! ### Producers -/

theorem follow_normal {g : Graph} {r : Registry} {type : String} {unvisited : List NodeId} {link : Link}
    {producer : Producer} (found : g.follow r type unvisited link = some producer) :
    ∃ node, g.node? producer.node = some node ∧ r.participation node = .normal := by
  fun_induction Graph.follow g r type unvisited link with
  | case1 => cases found
  | case2 unvisited link node there _ normal =>
    cases found
    rw [← id_of_node? there] at there
    exact ⟨node, there, normal⟩
  | case3 => cases found
  | case4 unvisited link node there member role next step ih => exact ih found
  | case5 => cases found
  | case6 unvisited link node there member role next step ih => exact ih found
  | case7 => cases found
  | case8 => cases found

theorem resolveInput_normal {g : Graph} {r : Registry} {id : NodeId} {slot : Nat} {producer : Producer}
    (found : g.resolveInput r id slot = some producer) :
    ∃ node, g.node? producer.node = some node ∧ r.participation node = .normal := by
  rw [resolveInput] at found
  obtain ⟨node, _, found⟩ := Option.bind_eq_some_iff.1 found
  obtain ⟨input, _, found⟩ := Option.bind_eq_some_iff.1 found
  obtain ⟨link, _, found⟩ := Option.bind_eq_some_iff.1 found
  exact follow_normal found

theorem inputValue?_link {g : Graph} {defs : Definitions} {node : Node} {name producer : String} {slot : Word}
    (linked : g.inputValue? defs node name = some (.link producer slot)) :
    ∃ source ∈ g.nodes, defs.registry.participation source = .normal ∧ source.id.display = producer := by
  rw [inputValue?] at linked
  cases last : (g.producers defs.registry node name).getLast? with
  | none =>
    rw [last] at linked
    obtain ⟨value, _, same⟩ := Option.map_eq_some_iff.1 linked
    cases same
  | some found =>
    rw [last] at linked
    have inside := List.mem_of_getLast? last
    obtain ⟨entry, _, resolved⟩ := List.mem_filterMap.1 inside
    obtain ⟨source, there, normal⟩ := resolveInput_normal resolved
    cases linked
    exact ⟨source, List.mem_of_find?_eq_some there, normal, congrArg NodeId.display (id_of_node? there)⟩

end Graph

/-! ### The whole prompt -/

theorem Instruction.dropInputs_of_none {i : Instruction} {drop : InputValue → Bool}
    (kept : ∀ name value, i.inputs.get? name = some value → drop value = false) : i.dropInputs drop = i := by
  have inputs : i.inputs.filter (fun _ value => !drop value) = i.inputs := by
    apply Table.ext_get?
    intro name
    rw [Table.get?_filter]
    cases found : i.inputs.get? name with
    | none => rfl
    | some value => simp [Option.filter, kept name value found]
  have linked : i.isInputLinked.filter (fun name _ => !(i.inputs.get? name).any drop) = i.isInputLinked := by
    apply Table.ext_get?
    intro name
    have stays : (i.inputs.get? name).any drop = false := by
      cases found : i.inputs.get? name with
      | none => rfl
      | some value => exact kept name value found
    rw [Table.get?_filter]
    cases i.isInputLinked.get? name <;> simp [Option.filter, stays]
  rw [dropInputs, inputs, linked]

-- Where every link refers to an instruction nothing is taken out.
theorem Prompt.prune_of_complete {prompt : Prompt}
    (complete : ∀ key i, prompt.get? key = some i → ∀ name producer slot,
      i.inputs.get? name = some (.link producer slot) → prompt.contains producer) : prompt.prune = prompt := by
  apply Table.ext_get?
  intro key
  rw [prune, Table.get?_map]
  cases found : prompt.get? key with
  | none => rfl
  | some i =>
    rw [Option.map_some, Instruction.dropInputs_of_none]
    intro name value there
    cases value with
    | literal => rfl
    | link producer slot => simp [complete key i found name producer slot there]

namespace Graph

-- The instruction that a node gives, with its key; nodes that take no part in the run give none.
def emission? (g : Graph) (defs : Definitions) (id : NodeId) : Option (String × Instruction) :=
  (g.node? id).bind fun node =>
    if defs.registry.participation node = .normal then some (node.id.display, g.instruction defs node) else none

theorem foldl_addInstruction (g : Graph) (defs : Definitions) (order : List NodeId) (prompt : Prompt) :
    order.foldl (g.addInstruction defs) prompt = prompt.insertAll (order.filterMap (g.emission? defs)) := by
  induction order generalizing prompt with
  | nil => rfl
  | cons id rest ih =>
    rw [List.foldl_cons, ih, List.filterMap_cons, addInstruction, emission?]
    cases g.node? id with
    | none => rfl
    | some node =>
      by_cases normal : defs.registry.participation node = .normal
      · simp only [Option.bind_some, if_pos normal]
        rfl
      · simp only [Option.bind_some, if_neg normal]

theorem mem_emissions {g : Graph} (distinct : g.nodeIds.Nodup) (defs : Definitions) (order : List NodeId) (key : String)
    (i : Instruction) : (key, i) ∈ order.filterMap (g.emission? defs) ↔
      ∃ node ∈ g.nodes, node.id ∈ order ∧ defs.registry.participation node = .normal ∧ node.id.display = key ∧
        g.instruction defs node = i := by
  rw [List.mem_filterMap]
  constructor
  · rintro ⟨id, listed, made⟩
    obtain ⟨node, found, given⟩ := Option.bind_eq_some_iff.1 made
    obtain ⟨member, rfl⟩ := (node?_eq_some_iff distinct id node).1 found
    by_cases normal : defs.registry.participation node = .normal
    · rw [if_pos normal] at given
      cases given
      exact ⟨node, member, listed, normal, rfl, rfl⟩
    · rw [if_neg normal] at given
      cases given
  · rintro ⟨node, member, listed, normal, rfl, rfl⟩
    refine ⟨node.id, listed, ?_⟩
    rw [emission?, (node?_eq_some_iff distinct node.id node).2 ⟨member, rfl⟩, Option.bind_some, if_pos normal]

section Serialize

variable {g : Graph} (displays : (g.nodeIds.map NodeId.display).Nodup) (defs : Definitions)

include displays in
theorem eq_of_display {a b : Node} (memberA : a ∈ g.nodes) (memberB : b ∈ g.nodes)
    (same : a.id.display = b.id.display) : a = b := by
  rw [nodeIds, List.map_map] at displays
  exact List.inj_on_of_nodup_map displays memberA memberB same

include displays in
-- Instructions under one key would overwrite each other, but they are all of one node.
theorem get?_foldl_addInstruction (order : List NodeId) (key : String) (i : Instruction) :
    (order.foldl (g.addInstruction defs) .empty).get? key = some i ↔
      ∃ node ∈ g.nodes, node.id ∈ order ∧ defs.registry.participation node = .normal ∧ node.id.display = key ∧
        g.instruction defs node = i := by
  have distinct : g.nodeIds.Nodup := displays.of_map _
  rw [foldl_addInstruction, Table.get?_insertAll, Table.get?_empty, Option.or_none, Option.map_eq_some_iff]
  constructor
  · rintro ⟨⟨k, v⟩, last, rfl⟩
    obtain ⟨member, same⟩ := List.mem_filter.1 (List.mem_of_getLast? last)
    cases eq_of_beq same
    exact (mem_emissions distinct defs order _ _).1 member
  · rintro ⟨node, member, listed, normal, rfl, rfl⟩
    have emitted : (node.id.display, g.instruction defs node) ∈
        (order.filterMap (g.emission? defs)).filter (·.1 == node.id.display) :=
      List.mem_filter.2 ⟨(mem_emissions distinct defs order _ _).2 ⟨node, member, listed, normal, rfl, rfl⟩, by simp⟩
    obtain ⟨⟨k, v⟩, last⟩ := Option.ne_none_iff_exists'.1
      (mt List.getLast?_eq_none_iff.1 (List.ne_nil_of_mem emitted))
    obtain ⟨lastMember, same⟩ := List.mem_filter.1 (List.mem_of_getLast? last)
    obtain ⟨other, otherMember, _, _, otherKey, rfl⟩ := (mem_emissions distinct defs order k v).1 lastMember
    rw [eq_of_display displays otherMember member (otherKey.trans (eq_of_beq same))] at last
    exact ⟨_, last, rfl⟩

variable {order : List NodeId} (all : ∀ id ∈ g.nodeIds, id ∈ order)

include displays all in
theorem get?_emitted (key : String) (i : Instruction) :
    (order.foldl (g.addInstruction defs) .empty).get? key = some i ↔
      ∃ node ∈ g.nodes, defs.registry.participation node = .normal ∧ node.id.display = key ∧
        g.instruction defs node = i := by
  rw [get?_foldl_addInstruction displays]
  constructor
  · rintro ⟨node, member, _, rest⟩
    exact ⟨node, member, rest⟩
  · rintro ⟨node, member, rest⟩
    exact ⟨node, member, all node.id (List.mem_map_of_mem member), rest⟩

include displays all in
theorem contains_emitted (key : String) : (order.foldl (g.addInstruction defs) .empty).contains key ↔
    ∃ node ∈ g.nodes, defs.registry.participation node = .normal ∧ node.id.display = key := by
  rw [Table.contains, Option.isSome_iff_exists]
  simp only [get?_emitted displays defs all]
  constructor
  · rintro ⟨_, node, member, normal, here, _⟩
    exact ⟨node, member, normal, here⟩
  · rintro ⟨node, member, normal, here⟩
    exact ⟨_, node, member, normal, here, rfl⟩

include displays all in
theorem links_emitted {key name producer : String} {i : Instruction} {slot : Word}
    (found : (order.foldl (g.addInstruction defs) .empty).get? key = some i)
    (linked : i.inputs.get? name = some (.link producer slot)) :
    (order.foldl (g.addInstruction defs) .empty).contains producer := by
  obtain ⟨node, _, _, _, rfl⟩ := (get?_emitted displays defs all key i).1 found
  rw [inputs_instruction] at linked
  exact (contains_emitted displays defs all producer).2 (inputValue?_link linked)

include displays all in
theorem serialize_eq : g.serialize defs order = order.foldl (g.addInstruction defs) .empty :=
  Prompt.prune_of_complete fun _ _ found _ _ _ linked => links_emitted displays defs all found linked

end Serialize

-- An image that comes through a reroute, and an amount whose link leads to a muted node.
def blurDefinitions : Definitions :=
  let loader := (Operation.named "Loader").addOutput "IMAGE" "image"
  let blur := ((Operation.named "Blur").addRequired "image" (.text "IMAGE")).addRequired "amount" (.text "INT")
  .ofRegistry ((Registry.standard.insert loader).insert (blur.addOutput "IMAGE" "image"))

def blurNode : Node :=
  { Node.plain (.number 3) "Blur" with
    inputs := [{ InputSlot.plain "image" "IMAGE" with link := some 2 }, { InputSlot.plain "amount" "INT" with link := some 3 }]
    widgets := some [.ofNat 7] }

-- A reroute between a link and the links that go on from it.
def relayNode (id : Int64) (inward : LinkId) (outward : List LinkId) : Node :=
  { Node.plain (.number id) "Reroute" with
    inputs := [{ InputSlot.plain "" "*" with link := some inward }]
    outputs := [{ OutputSlot.plain "" "*" with links := some outward }] }

def blurGraph : Graph where
  nodes := [
    { Node.plain (.number 1) "Loader" with outputs := [{ OutputSlot.plain "image" "IMAGE" with links := some [1] }] },
    { Node.plain (.number 2) "Reroute" with
      inputs := [{ InputSlot.plain "" "*" with link := some 1 }]
      outputs := [{ OutputSlot.plain "" "*" with links := some [2] }] },
    blurNode,
    { Node.plain (.number 4) "Loader" with
      mode := .muted
      outputs := [{ OutputSlot.plain "amount" "INT" with links := some [3] }] }]
  links := [⟨1, .number 1, 0, .number 2, 0, "IMAGE"⟩, ⟨2, .number 2, 0, .number 3, 0, "IMAGE"⟩,
    ⟨3, .number 4, 0, .number 3, 1, "INT"⟩]
  nextLinkId := 4

end Graph
end Patchbay
