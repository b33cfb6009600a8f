import Patchbay.Proofs.Prompt.Idle

/-!
What a resolved producer is worth. Its node is always there and takes part in the run, but its slot is that of the
last link of the walk, unread: the slot is an output of the node where the links of the graph leave such outputs.
-/
set_option autoImplicit false

namespace Patchbay

-- The output that a link names, be it there or not.
def Link.source (link : Link) : Producer := ⟨link.origin, link.originSlot⟩

namespace Node

def dataOutputCount (node : Node) : Nat := node.outputs.countP (!·.isFlow)

theorem flowOutputCount_add (node : Node) : node.flowOutputCount + node.dataOutputCount = node.outputs.length := by
  rw [List.length_eq_countP_add_countP (fun slot : OutputSlot => slot.isFlow), flowOutputCount, dataOutputCount]
  simp

theorem lower_lt_iff (node : Node) (slot : Word) :
    (slot.lower node.flowOutputCount).toNat < node.dataOutputCount ↔
      slot.toNat < node.outputs.length ∧ 0 < node.dataOutputCount := by
  rw [Word.toNat_lower, ← node.flowOutputCount_add]
  omega

end Node

namespace Graph

-- The node has this slot among its outputs, and it carries data.
def Offers (g : Graph) (producer : Producer) : Prop :=
  ∃ output, g.outputAt? producer.node producer.slot.toNat = some output ∧ output.isFlow = false

instance (g : Graph) (producer : Producer) : Decidable (g.Offers producer) :=
  decidable_of_iff ((g.outputAt? producer.node producer.slot.toNat).any (!·.isFlow)) <| by
    simp [Offers, Option.any_eq_true]

-- Every held link that leaves a node of the run leaves a data output of it.
def Grounded (g : Graph) (r : Registry) : Prop :=
  ∀ id slot link, g.incoming? id slot = some link →
    ∀ node, g.node? link.origin = some node → r.participation node = .normal → g.Offers link.source

theorem grounded_of_links {g : Graph} (offered : ∀ link ∈ g.links, g.Offers link.source) (r : Registry) :
    g.Grounded r := by
  intro id slot link held _ _ _
  obtain ⟨_, _, linked⟩ := Option.bind_eq_some_iff.1 held
  obtain ⟨_, _, found⟩ := Option.bind_eq_some_iff.1 linked
  exact offered link (mem_of_link? found)

theorem Offers.lower_lt {g : Graph} {producer : Producer} (offers : g.Offers producer) {node : Node}
    (found : g.node? producer.node = some node) :
    (producer.slot.lower node.flowOutputCount).toNat < node.dataOutputCount := by
  obtain ⟨output, there, data⟩ := offers
  rw [outputAt?, found, Option.bind_some] at there
  have member := List.mem_of_getElem? there
  obtain ⟨inside, _⟩ := List.getElem?_eq_some_iff.1 there
  refine (node.lower_lt_iff producer.slot).2 ⟨inside, ?_⟩
  rw [Node.dataOutputCount, List.countP_pos_iff]
  exact ⟨output, member, by simp [data]⟩

/-! ### Walks -/

-- A walk ends at a node of the run, and with the slot of the link by which it came there.
theorem follow_source {g : Graph} {r : Registry} {type : String} {unvisited : List NodeId} {link : Link}
    {producer : Producer} (held : ∃ id slot, g.incoming? id slot = some link)
    (found : g.follow r type unvisited link = some producer) :
    ∃ id slot last node, g.incoming? id slot = some last ∧ g.node? last.origin = some node ∧
      r.participation node = .normal ∧ producer = last.source := by
  fun_induction Graph.follow g r type unvisited link with
  | case1 => cases found
  | case2 unvisited link node there member normal =>
    cases found
    obtain ⟨id, slot, arrives⟩ := held
    exact ⟨id, slot, link, node, arrives, there, normal, by rw [id_of_node? there, Link.source]⟩
  | case3 => cases found
  | case4 unvisited link node there member role next step ih =>
    obtain ⟨input, _, arrives⟩ := Option.bind_eq_some_iff.1 step
    exact ih ⟨_, input, arrives⟩ found
  | case5 => cases found
  | case6 unvisited link node there member role next step ih =>
    obtain ⟨input, _, arrives⟩ := Option.bind_eq_some_iff.1 step
    exact ih ⟨_, input, arrives⟩ found
  | case7 => cases found
  | case8 => cases found

theorem resolveInput_source {g : Graph} {r : Registry} {id : NodeId} {slot : Nat} {producer : Producer}
    (found : g.resolveInput r id slot = some producer) :
    ∃ id slot last node, g.incoming? id slot = some last ∧ g.node? last.origin = some node ∧
      r.participation node = .normal ∧ producer = last.source := by
  rw [resolveInput_eq] at found
  obtain ⟨type, _, found⟩ := Option.bind_eq_some_iff.1 found
  obtain ⟨link, arrives, walk⟩ := Option.bind_eq_some_iff.1 found
  exact follow_source ⟨id, slot, arrives⟩ walk

-- The first step of a walk, as far as it does not lead on.
theorem resolveInput_of_incoming {g : Graph} {id : NodeId} {slot : Nat} {link : Link}
    (arrives : g.incoming? id slot = some link) (r : Registry) :
    (g.node? link.origin = none → g.resolveInput r id slot = none) ∧
      ∀ node, g.node? link.origin = some node →
        (r.participation node = .muted → g.resolveInput r id slot = none) ∧
          (r.participation node = .normal → g.resolveInput r id slot = some link.source) := by
  have known : ∃ input, g.inputAt? id slot = some input := by
    obtain ⟨node, found, linked⟩ := Option.bind_eq_some_iff.1 arrives
    obtain ⟨held, there, _⟩ := Option.bind_eq_some_iff.1 linked
    obtain ⟨input, place, _⟩ := Option.bind_eq_some_iff.1 there
    exact ⟨input, by rw [inputAt?, found, Option.bind_some, place]⟩
  obtain ⟨input, there⟩ := known
  have walk : g.resolveInput r id slot = g.follow r input.type g.nodeIds link := by
    rw [resolveInput_eq, there, arrives]
    rfl
  rw [walk, follow_eq]
  refine ⟨fun missing => by rw [missing]; rfl, fun node found => ?_⟩
  have listed : link.origin ∈ g.nodeIds := (g.mem_nodeIds_iff link.origin).2 (by rw [found]; rfl)
  rw [found, Option.bind_some, if_pos listed]
  refine ⟨fun muted => ?_, fun normal => if_pos normal⟩
  have other : r.participation node ≠ .normal := by simp [muted]
  rw [if_neg other, Node.passedInput?, muted]
  rfl

theorem offers_iff_grounded (g : Graph) (r : Registry) :
    (∀ id slot producer, g.resolveInput r id slot = some producer → g.Offers producer) ↔ g.Grounded r := by
  constructor
  · intro offered id slot link arrives node found normal
    exact offered id slot _ (((resolveInput_of_incoming arrives r).2 node found).2 normal)
  · intro grounded id slot producer found
    obtain ⟨_, _, last, node, arrives, there, normal, rfl⟩ := resolveInput_source found
    exact grounded _ _ last arrives node there normal

/-! ### Prompts -/

theorem exists_of_dropInputs {i : Instruction} {drop : InputValue → Bool} {name : String} {value : InputValue}
    (kept : (i.dropInputs drop).inputs.get? name = some value) : i.inputs.get? name = some value := by
  rw [Instruction.dropInputs, Table.get?_filter, Option.filter_eq_some_iff] at kept
  exact kept.1

-- Also where ids are repeated, an instruction is that of a node, less some of its inputs.
theorem exists_node_of_serialize {g : Graph} {defs : Definitions} {order : List NodeId} {key : String} {i : Instruction}
    (found : (g.serialize defs order).get? key = some i) :
    ∃ id node drop, g.node? id = some node ∧ i = (g.instruction defs node).dropInputs drop := by
  rw [serialize, Prompt.prune, Table.get?_map, Option.map_eq_some_iff] at found
  obtain ⟨whole, there, rfl⟩ := found
  rw [foldl_addInstruction, Table.get?_insertAll, Table.get?_empty, Option.or_none, Option.map_eq_some_iff] at there
  obtain ⟨⟨own, _⟩, last, rfl⟩ := there
  obtain ⟨id, _, made⟩ := List.mem_filterMap.1 (List.mem_filter.1 (List.mem_of_getLast? last)).1
  obtain ⟨node, here, given⟩ := Option.bind_eq_some_iff.1 made
  by_cases normal : defs.registry.participation node = .normal
  · rw [if_pos normal] at given
    cases given
    exact ⟨id, node, _, here, rfl⟩
  · rw [if_neg normal] at given
    cases given

theorem exists_producer_of_link {g : Graph} {defs : Definitions} {order : List NodeId} {key name target : String}
    {i : Instruction} {place : Word} (found : (g.serialize defs order).get? key = some i)
    (linked : i.inputs.get? name = some (.link target place)) :
    ∃ id slot producer node, g.resolveInput defs.registry id slot = some producer ∧
      g.node? producer.node = some node ∧ target = node.id.display ∧
        place = producer.slot.lower node.flowOutputCount := by
  obtain ⟨_, node, drop, _, rfl⟩ := exists_node_of_serialize found
  have value := exists_of_dropInputs linked
  rw [inputs_instruction, inputValue?] at value
  cases last : (g.producers defs.registry node name).getLast? with
  | none =>
    rw [last] at value
    obtain ⟨_, _, same⟩ := Option.map_eq_some_iff.1 value
    cases same
  | some producer =>
    rw [last] at value
    obtain ⟨entry, _, resolved⟩ := List.mem_filterMap.1 (List.mem_of_getLast? last)
    obtain ⟨source, there, _⟩ := resolveInput_normal resolved
    have reference : g.reference producer =
        .link source.id.display (producer.slot.lower source.flowOutputCount) := by
      rw [reference, there, id_of_node? there]
      rfl
    simp only [reference] at value
    cases value
    exact ⟨node.id, entry.2, producer, source, resolved, there, rfl, rfl⟩

/-- A resolved producer is a node of the run with the slot of a held link, and outputs are there where such links
leave them; then the links of a prompt count from the data outputs of their producers. -/
theorem resolved_offered_iff (g : Graph) :
    (∀ r id slot producer, g.resolveInput r id slot = some producer →
      (∃ node, g.node? producer.node = some node ∧ r.participation node = .normal) ∧
        ∃ x s link, g.incoming? x s = some link ∧ producer = link.source) ∧
    (∀ r, (∀ id slot producer, g.resolveInput r id slot = some producer → g.Offers producer) ↔ g.Grounded r) ∧
    (∀ (defs : Definitions) order key i name target place, (g.serialize defs order).get? key = some i →
      i.inputs.get? name = some (.link target place) →
        ∃ id slot producer node, g.resolveInput defs.registry id slot = some producer ∧
          g.node? producer.node = some node ∧ target = node.id.display ∧
            (place.toNat < node.dataOutputCount ↔
              producer.slot.toNat < node.outputs.length ∧ 0 < node.dataOutputCount) ∧
            (g.Grounded defs.registry → place.toNat < node.dataOutputCount)) ∧
    ∀ r id slot link, g.incoming? id slot = some link →
      (g.node? link.origin = none → g.resolveInput r id slot = none) ∧
        ∀ node, g.node? link.origin = some node →
          (r.participation node = .muted → g.resolveInput r id slot = none) ∧
            (r.participation node = .normal → g.resolveInput r id slot = some link.source) := by
  refine ⟨?_, g.offers_iff_grounded, ?_, fun r _ _ _ arrives => resolveInput_of_incoming arrives r⟩
  · intro r id slot producer found
    obtain ⟨x, s, link, _, arrives, _, _, same⟩ := resolveInput_source found
    exact ⟨resolveInput_normal found, x, s, link, arrives, same⟩
  · intro defs order key i name target place found linked
    obtain ⟨id, slot, producer, node, resolved, there, display, rfl⟩ := exists_producer_of_link found linked
    refine ⟨id, slot, producer, node, resolved, there, display, node.lower_lt_iff producer.slot, fun grounded => ?_⟩
    exact ((offers_iff_grounded g _).2 grounded id slot producer resolved).lower_lt there

theorem resolved_offered_iff_blur :
    blurGraph.Grounded blurDefinitions.registry ∧ blurGraph.Offers ⟨.number 1, 0⟩ ∧
      (∃ node : Node, node.id.display = "1" ∧ 0 < node.dataOutputCount) ∧
        blurGraph.resolveInput blurDefinitions.registry (.number 3) 1 = none := by
  have grounded : blurGraph.Grounded blurDefinitions.registry :=
    grounded_of_links (by decide +kernel) blurDefinitions.registry
  obtain ⟨_, offered, linked, unconnected⟩ := resolved_offered_iff blurGraph
  have resolved : blurGraph.resolveInput blurDefinitions.registry (.number 3) 0 = some ⟨.number 1, 0⟩ := by
    decide +kernel
  have image : ((blurGraph.serialize blurDefinitions blurGraph.nodeIds).get? "3").bind (·.inputs.get? "image") =
      some (.link "1" 0) := by decide +kernel
  obtain ⟨i, found, value⟩ := Option.bind_eq_some_iff.1 image
  obtain ⟨_, _, _, node, _, _, display, _, inside⟩ := linked _ _ _ _ _ _ _ found value
  have amount : blurGraph.incoming? (.number 3) 1 = some ⟨3, .number 4, 0, .number 3, 1, "INT"⟩ := by decide +kernel
  refine ⟨grounded, (offered _).2 grounded _ _ _ resolved, ⟨node, display.symm, inside grounded⟩, ?_⟩
  exact ((unconnected _ _ _ _ amount).2 _ rfl).1 (by decide +kernel)

-- The link leaves the second output of a node that has one.
def overrun : Graph where
  nodes := [
    { Node.plain (.number 1) "Load" with outputs := [.plain "IMAGE" "IMAGE"] },
    { Node.plain (.number 2) "Save" with inputs := [{ InputSlot.plain "image" "IMAGE" with link := some 1 }] }]
  links := [⟨1, .number 1, 1, .number 2, 0, "IMAGE"⟩]
  nextLinkId := 2

theorem resolved_not_offered :
    overrun.Wired ∧ overrun.resolveInput .standard (.number 2) 0 = some ⟨.number 1, 1⟩ ∧
      ¬ overrun.Offers ⟨.number 1, 1⟩ ∧
        ((overrun.serialize (.ofRegistry .standard) overrun.nodeIds).get? "2").bind (·.inputs.get? "image") =
          some (.link "1" 1) ∧
          (overrun.node? (.number 1)).map (·.dataOutputCount) = some 1 := by
  decide +kernel

end Graph
end Patchbay
