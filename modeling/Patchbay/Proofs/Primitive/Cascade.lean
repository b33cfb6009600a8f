import Patchbay.Proofs.Ordering.Schedule
import Patchbay.Proofs.Primitive.Supply

/-!
Primitives that write to one another. In an order that follows the links a primitive is read after all that is written
to it, so the writes of a pass can be read off the graph that it leaves, and a second pass makes them again.
-/
set_option autoImplicit false

namespace Patchbay

/-! ### What stays of a list of widgets -/

/-- The values at other places stay, and a list that is too short for these places is filled up with `null`. -/
structure Filled (fed : Nat → Prop) (before after : List Json) : Prop where
  kept : ∀ i held, ¬ fed i → before[i]? = some held → after[i]? = some held
  padded : ∀ i held, ¬ fed i → before[i]? = none → after[i]? = some held → held = .null ∧ ∃ j, i < j ∧ fed j

theorem getElem?_of_setValue {values : List Json} {index i : Nat} {value held : Json} (apart : index ≠ i)
    (read : (setValue values index value)[i]? = some held) :
    values[i]? = some held ∨ values[i]? = none ∧ held = .null ∧ i < index := by
  rw [setValue, List.getElem?_set_ne apart, List.getElem?_append] at read
  by_cases old : i < values.length
  · rw [if_pos old] at read
    exact .inl read
  · rw [if_neg old, List.getElem?_replicate] at read
    split at read
    · exact .inr ⟨List.getElem?_eq_none (Nat.le_of_not_lt old), (Option.some.inj read).symm, by omega⟩
    · cases read

namespace Filled

variable {fed : Nat → Prop} {before after : List Json}

theorem refl (fed : Nat → Prop) (values : List Json) : Filled fed values values where
  kept _ _ _ there := there
  padded i held _ missing there := by
    rw [missing] at there
    cases there

theorem store (filled : Filled fed before after) {index : Nat} (here : fed index) (value : Json) :
    Filled fed before (setValue after index value) where
  kept i held other there := by
    have apart : index ≠ i := fun same => other (same ▸ here)
    exact getElem?_setValue_of_ne apart (filled.kept i held other there) value
  padded i held other missing there := by
    have apart : index ≠ i := fun same => other (same ▸ here)
    rcases getElem?_of_setValue apart there with old | ⟨_, null, below⟩
    · exact filled.padded i held other missing old
    · exact ⟨null, index, below, here⟩

theorem stores {writes : List WidgetWrite} {id : NodeId} (places : ∀ write ∈ writes, write.node = id → fed write.index)
    {widgets : Option (List Json)} (filled : Filled fed before (widgets.getD [])) :
    Filled fed before ((storeAll writes id widgets).getD []) := by
  induction writes generalizing widgets with
  | nil => exact filled
  | cons write rest ih =>
    rw [storeAll, List.foldl_cons]
    refine ih (fun later member => places later (List.mem_cons_of_mem _ member)) ?_
    rw [WidgetWrite.store]
    by_cases here : write.node = id
    · rw [if_pos here, Option.getD_some]
      exact filled.store (places write List.mem_cons_self here) write.value
    · rw [if_neg here]
      exact filled

end Filled

/-- The node after a pass is the one before, but for widgets that are fed and the ones missing in front of them. -/
structure Node.FilledIn (fed : Nat → Prop) (before after : Node) : Prop where
  rest : after = { before with widgets := after.widgets }
  untouched : (∀ i, ¬ fed i) → after = before
  widgets : Filled fed before.widgetValues after.widgetValues

namespace Graph

/-! ### Reading and writing by turns -/

/-- What a pass writes when each primitive is read after the writes of those before it. -/
def cascade (defs : Definitions) (g : Graph) : List NodeId → List WidgetWrite
  | [] => []
  | id :: rest => g.writesOf defs id ++ (g.store (g.writesOf defs id)).cascade defs rest

theorem foldl_visit_made (defs : Definitions) (order : List NodeId) (pass : PrimitivePass)
    (distinct : pass.graph.nodeIds.Nodup) :
    order.foldl (PrimitivePass.visit defs) pass = pass.made (pass.graph.cascade defs order) := by
  induction order generalizing pass with
  | nil => exact pass.made_nil.symm
  | cons id rest ih =>
    have kept : (pass.made (pass.graph.writesOf defs id)).graph.nodeIds.Nodup := by
      rw [PrimitivePass.graph_made, nodeIds_store]
      exact distinct
    rw [List.foldl_cons, visit_made defs pass id distinct, ih _ kept, ← PrimitivePass.made_append]
    rfl

theorem applyPrimitives_made (g : Graph) (defs : Definitions) (distinct : g.nodeIds.Nodup) (order : List NodeId) :
    g.applyPrimitives defs order = ⟨g.store (g.cascade defs order), (g.cascade defs order).length⟩ := by
  rw [applyPrimitives, foldl_visit_made defs order _ distinct, PrimitivePass.made, Nat.zero_add]

-- A primitive is read from its own node only.
theorem writesOf_congr {a b : List WidgetWrite} {g : Graph} {id : NodeId}
    (same : (g.store a).node? id = (g.store b).node? id) (defs : Definitions) :
    (g.store a).writesOf defs id = (g.store b).writesOf defs id := by
  have primitive : (g.store a).primitive? defs.registry id = (g.store b).primitive? defs.registry id := by
    rw [primitive?, primitive?, same]
    rfl
  rw [writesOf, writesOf, primitive]
  cases (g.store b).primitive? defs.registry id with
  | none => rfl
  | some held => exact (writesTo_store a g defs ..).trans (writesTo_store b g defs ..).symm

theorem node?_store_append_of_spared (a : List WidgetWrite) {b : List WidgetWrite} {id : NodeId}
    (spared : ∀ write ∈ b, write.node ≠ id) (g : Graph) : (g.store (a ++ b)).node? id = (g.store a).node? id := by
  rw [node?_store, node?_store]
  cases found : g.node? id with
  | none => rfl
  | some node =>
    have here : ∀ write ∈ b, write.node ≠ (node.store a).id := by
      rw [Node.store, id_of_node? found]
      exact spared
    have kept : (node.store a).store b = node.store a :=
      congrArg (fun widgets => { node.store a with widgets := widgets }) (storeAll_other b _ _ here)
    rw [Option.map_some, Option.map_some, Node.store_append, kept]

/-! ### Where the writes come from -/

-- At least one primitive with a value feeds the widget.
def Fed (g : Graph) (defs : Definitions) (place : NodeId × Nat) : Prop := ∃ id value, g.Hands defs id place value

theorem Hands.exists_nodes {g : Graph} {defs : Definitions} {id : NodeId} {place : NodeId × Nat} {value : Json}
    (hands : g.Hands defs id place value) : id ∈ g.nodeIds ∧ place.1 ∈ g.nodeIds := by
  obtain ⟨_, found, _, _, target, _, same, index⟩ := hands
  obtain ⟨_, _, _, _, there, _⟩ := (widgetIndex?_eq_some_iff ..).1 index
  rw [same] at there
  exact ⟨(g.mem_nodeIds_iff id).2 (Option.isSome_of_eq_some found),
    (g.mem_nodeIds_iff _).2 (Option.isSome_of_eq_some there)⟩

theorem Hands.value_unique {g : Graph} {defs : Definitions} {id : NodeId} {a b : NodeId × Nat} {first second : Json}
    (handsA : g.Hands defs id a first) (handsB : g.Hands defs id b second) : first = second := by
  obtain ⟨node, found, _, held, _⟩ := handsA
  obtain ⟨other, foundToo, _, heldToo, _⟩ := handsB
  rw [found] at foundToo
  cases foundToo
  exact Option.some.inj (held.symm.trans heldToo)

theorem precedes_of_mem_writesOf {g : Graph} (wired : g.Wired) (defs : Definitions) {id : NodeId}
    {write : WidgetWrite} (made : write ∈ g.writesOf defs id) : g.Precedes id write.node := by
  have hands := (mem_writesOf_iff_hands wired defs id write).1 made
  obtain ⟨inside, there⟩ := hands.exists_nodes
  obtain ⟨_, found, _, _, _, ⟨_, link, member, leaves, rfl⟩, same, _⟩ := hands
  exact ⟨link, member, leaves.1.trans (id_of_node? found), same, inside, there⟩

theorem inputAt?_store (writes : List WidgetWrite) (g : Graph) : (g.store writes).inputAt? = g.inputAt? := by
  funext id slot
  rw [inputAt?, inputAt?, node?_store]
  cases g.node? id <;> rfl

theorem outputAt?_store (writes : List WidgetWrite) (g : Graph) : (g.store writes).outputAt? = g.outputAt? := by
  funext id slot
  rw [outputAt?, outputAt?, node?_store]
  cases g.node? id <;> rfl

theorem Wired.store {g : Graph} (wired : g.Wired) (writes : List WidgetWrite) : (g.store writes).Wired where
  nodeIds := by
    rw [nodeIds_store]
    exact wired.nodeIds
  linkIds := wired.linkIds
  inputs := by
    rw [inputAt?_store]
    exact wired.inputs
  outputs := by
    rw [outputAt?_store]
    exact wired.outputs

theorem precedes_store (writes : List WidgetWrite) (g : Graph) : (g.store writes).Precedes = g.Precedes := by
  funext a b
  rw [Precedes, Precedes, nodeIds_store]
  rfl

/-! ### A pass in the order of the links -/

section Ordered

variable {g : Graph} (wired : g.Wired) (defs : Definitions)

include wired in
theorem exists_precedes_of_mem_cascade {order : List NodeId} {writes : List WidgetWrite} {write : WidgetWrite}
    (made : write ∈ (g.store writes).cascade defs order) : ∃ id ∈ order, g.Precedes id write.node := by
  induction order generalizing writes with
  | nil => cases made
  | cons id rest ih =>
    rcases List.mem_append.1 made with first | later
    · have link := precedes_of_mem_writesOf (wired.store writes) defs first
      rw [precedes_store] at link
      exact ⟨id, List.mem_cons_self, link⟩
    · rw [← store_append] at later
      obtain ⟨other, member, link⟩ := ih later
      exact ⟨other, List.mem_cons_of_mem _ member, link⟩

variable {order : List NodeId} (irrefl : ∀ id, ¬ g.Precedes id id)

include irrefl in
/-- What is written from a node on goes to the nodes behind it. -/
theorem ne_of_exists_precedes {id : NodeId} {rest : List NodeId} (behind : ∀ later ∈ rest, ¬ g.Precedes later id)
    {write : WidgetWrite} (linked : ∃ other ∈ id :: rest, g.Precedes other write.node) : write.node ≠ id := by
  intro here
  obtain ⟨other, member, link⟩ := linked
  rw [here] at link
  rcases List.mem_cons.1 member with rfl | later
  · exact irrefl _ link
  · exact behind other later link

variable (forward : order.Pairwise fun a b => ¬ g.Precedes b a)

include wired irrefl forward in
-- The induction is on the order, with what was written so far as a variable.
theorem cascade_eq_writes (writes : List WidgetWrite) : (g.store writes).cascade defs order =
    (g.store (writes ++ (g.store writes).cascade defs order)).writes defs order := by
  induction order generalizing writes with
  | nil => rfl
  | cons id rest ih =>
    rw [List.pairwise_cons] at forward
    have spared : ∀ write ∈ (g.store writes).cascade defs (id :: rest), write.node ≠ id := fun _ made =>
      ne_of_exists_precedes irrefl forward.1 (exists_precedes_of_mem_cascade wired defs made)
    have first := writesOf_congr (node?_store_append_of_spared writes spared g) defs
    have later := ih forward.2 (writes ++ (g.store writes).writesOf defs id)
    rw [Graph.writes, List.flatMap_cons, first, ← Graph.writes, cascade, ← store_append, ← List.append_assoc, ← later]

include wired irrefl forward in
/-- The graph that a pass leaves is left by a second one, with the same writes. -/
theorem cascade_again {h : Graph} (result : h = g.store (h.writes defs order)) :
    h.cascade defs order = h.writes defs order := by
  have turn : ∀ before rest, order = before ++ rest →
      (h.store (h.writes defs before)).cascade defs rest = h.writes defs rest := by
    intro before rest split
    induction rest generalizing before with
    | nil => rfl
    | cons id rest ih =>
      rw [split, Graph.writes, List.flatMap_append, ← Graph.writes, ← Graph.writes] at result
      have behind := (List.pairwise_cons.1 (List.pairwise_append.1 (split ▸ forward)).2.1).1
      have spared : ∀ write ∈ h.writes defs (id :: rest), write.node ≠ id := by
        intro write made
        obtain ⟨other, member, made⟩ := List.mem_flatMap.1 made
        rw [result] at made
        have link := precedes_of_mem_writesOf (wired.store _) defs made
        rw [precedes_store] at link
        exact ne_of_exists_precedes irrefl behind ⟨other, member, link⟩
      -- The node has what the earlier ones wrote, and they write the same once more.
      have held : h.node? id = (g.store (h.writes defs before)).node? id :=
        (congrArg (·.node? id) result).trans (node?_store_append_of_spared _ spared g)
      have same : (h.store (h.writes defs before)).node? id = (h.store []).node? id := by
        rw [store_nil, node?_store, held, ← node?_store, store_again]
      have first : (h.store (h.writes defs before)).writesOf defs id = h.writesOf defs id :=
        (writesOf_congr same defs).trans (congrArg (·.writesOf defs id) h.store_nil)
      have later := ih (before ++ [id]) (by rw [split, List.append_assoc, List.singleton_append])
      rw [Graph.writes, List.flatMap_append, List.flatMap_singleton, ← Graph.writes, store_append] at later
      rw [cascade, first, later]
      rfl
  rw [← turn [] order rfl, Graph.writes, List.flatMap_nil, store_nil]

end Ordered

/-! ### The last writer -/

theorem exists_last {α : Type} {p : α → Prop} {list : List α} (some : ∃ x ∈ list, p x) :
    ∃ before x after, list = before ++ x :: after ∧ p x ∧ ∀ y ∈ after, ¬ p y := by
  induction list with
  | nil => simp at some
  | cons head rest ih =>
    by_cases later : ∃ x ∈ rest, p x
    · obtain ⟨before, x, after, rfl, holds, last⟩ := ih later
      exact ⟨head :: before, x, after, rfl, holds, last⟩
    · have holds : p head := by
        obtain ⟨x, member, holds⟩ := some
        rcases List.mem_cons.1 member with rfl | inside
        · exact holds
        · exact absurd ⟨x, inside, holds⟩ later
      exact ⟨[], head, rest, rfl, holds, fun y inside holdsToo => later ⟨y, inside, holdsToo⟩⟩

/-- What a pass over the primitives does, told by the graph that it leaves. -/
structure Cascaded (defs : Definitions) (order : List NodeId) (before : Graph) (pass : PrimitivePass) : Prop where
  last : ∀ place, pass.graph.Fed defs place → ∃ earlier id later value, order = earlier ++ id :: later ∧
    pass.graph.Hands defs id place value ∧ (∀ other ∈ later, ∀ value, ¬ pass.graph.Hands defs other place value) ∧
      pass.graph.widgetAt? place = some value
  nodes : List.Forall₂ (fun old new => Node.FilledIn (fun i => pass.graph.Fed defs (old.id, i)) old new)
    before.nodes pass.graph.nodes
  links : pass.graph.links = before.links
  nextLinkId : pass.graph.nextLinkId = before.nextLinkId
  written : pass.written = (pass.graph.writes defs order).length
  again : pass.graph.applyPrimitives defs order = pass

section Cascade

variable {g : Graph} (wired : g.Wired) (defs : Definitions) {order : List NodeId}

variable {h : Graph} (result : h = g.store (h.writes defs order)) (all : ∀ id ∈ g.nodeIds, id ∈ order)

include wired result in
theorem exists_hands_of_mem_writes {ids : List NodeId} {write : WidgetWrite} (made : write ∈ h.writes defs ids) :
    ∃ id ∈ ids, h.Hands defs id (write.node, write.index) write.value := by
  obtain ⟨id, member, made⟩ := List.mem_flatMap.1 made
  exact ⟨id, member, (mem_writesOf_iff_hands (result ▸ wired.store _) defs id write).1 made⟩

include wired result all in
theorem last_of_result {place : NodeId × Nat} (fed : h.Fed defs place) :
    ∃ earlier id later value, order = earlier ++ id :: later ∧ h.Hands defs id place value ∧
      (∀ other ∈ later, ∀ value, ¬ h.Hands defs other place value) ∧ h.widgetAt? place = some value := by
  have ids : h.nodeIds = g.nodeIds := result ▸ nodeIds_store _ g
  have listed : ∃ id ∈ order, ∃ value, h.Hands defs id place value := by
    obtain ⟨id, value, hands⟩ := fed
    exact ⟨id, all id (ids ▸ hands.exists_nodes.1), value, hands⟩
  obtain ⟨earlier, id, later, split, ⟨value, hands⟩, last⟩ := exists_last listed
  have none : ∀ other ∈ later, ∀ value, ¬ h.Hands defs other place value := fun other inside value handsToo =>
    last other inside ⟨value, handsToo⟩
  -- Of what is written from the last writer on, all that goes to the place is its value.
  have one : ∀ write ∈ h.writes defs (id :: later), write.node = place.1 → write.index = place.2 →
      write.value = value := by
    intro write made node index
    obtain ⟨other, member, handsToo⟩ := exists_hands_of_mem_writes wired defs result made
    rw [node, index] at handsToo
    rcases List.mem_cons.1 member with rfl | behind
    · exact handsToo.value_unique hands
    · exact absurd handsToo (none other behind write.value)
  have made : ⟨place.1, place.2, value⟩ ∈ h.writes defs (id :: later) :=
    List.mem_flatMap.2 ⟨id, List.mem_cons_self,
      (mem_writesOf_iff_hands (result ▸ wired.store _) defs id ⟨place.1, place.2, value⟩).2 hands⟩
  refine ⟨earlier, id, later, value, split, hands, none, ?_⟩
  have stages : h = (g.store (h.writes defs earlier)).store (h.writes defs (id :: later)) := by
    rw [← store_append, Graph.writes, Graph.writes, ← List.flatMap_append, ← Graph.writes, ← split]
    exact result
  have present : place.1 ∈ (g.store (h.writes defs earlier)).nodeIds := by
    rw [nodeIds_store, ← ids]
    exact hands.exists_nodes.2
  obtain ⟨node, found⟩ := Option.isSome_iff_exists.1 ((mem_nodeIds_iff _ _).1 present)
  calc h.widgetAt? place
      = ((g.store (h.writes defs earlier)).store (h.writes defs (id :: later))).widgetAt? place :=
        congrArg (·.widgetAt? place) stages
    _ = some value := by
        rw [widgetAt?_store, found]
        exact storeAll_stored one _ (.inl ⟨_, made, rfl, rfl⟩)

include wired result in
theorem nodes_of_result : List.Forall₂ (fun old new => Node.FilledIn (fun i => h.Fed defs (old.id, i)) old new)
    g.nodes h.nodes := by
  have fed : ∀ node : Node, ∀ write ∈ h.writes defs order, write.node = node.id →
      h.Fed defs (node.id, write.index) := by
    intro node write made here
    obtain ⟨id, _, hands⟩ := exists_hands_of_mem_writes wired defs result made
    exact ⟨id, write.value, here ▸ hands⟩
  have nodes : h.nodes = g.nodes.map (·.store (h.writes defs order)) := congrArg Graph.nodes result
  rw [nodes, List.forall₂_map_right_iff, List.forall₂_same]
  intro node _
  refine ⟨rfl, fun unfed => ?_, (Filled.refl _ _).stores (fed node)⟩
  have other : ∀ write ∈ h.writes defs order, write.node ≠ node.id := fun write made here =>
    unfed write.index (fed node write made here)
  rw [Node.store, storeAll_other _ _ _ other]

end Cascade

/-- In a graph without a cycle, a pass in the order of the links leaves every fed widget with the value of its last
writer, as that one is in the end, and nothing for a second pass to do. What feeds a widget is the output behind the
sequencing outputs; where these come first, it is the first data output. -/
theorem applyPrimitives_cascade (g : Graph) (wired : g.Wired) (acyclic : Acyclic g.Precedes) (defs : Definitions) :
    Cascaded defs g.executionOrder g (g.applyPrimitives defs g.executionOrder) ∧
      ∀ source : Node, source.flowSlotsLead = true → ∀ place,
        (g.applyPrimitives defs g.executionOrder).graph.FeedsWidget defs source place ↔
          (g.applyPrimitives defs g.executionOrder).graph.Supplies defs source 0 place := by
  have placing := g.executionOrder_placing wired.nodeIds
  have forward := placing.pairwise acyclic wired.nodeIds
  have irrefl : ∀ id, ¬ g.Precedes id id := fun id link => acyclic id (.single link)
  have all : ∀ id ∈ g.nodeIds, id ∈ g.executionOrder := fun id member =>
    (placing.perm wired.nodeIds).symm.subset member
  have pass := g.applyPrimitives_made defs wired.nodeIds g.executionOrder
  have read := cascade_eq_writes wired defs irrefl forward []
  rw [store_nil, List.nil_append] at read
  rw [pass]
  generalize g.cascade defs g.executionOrder = made at read ⊢
  have result : g.store made = g.store ((g.store made).writes defs g.executionOrder) := by rw [← read]
  have again : (g.store made).applyPrimitives defs g.executionOrder = ⟨g.store made, made.length⟩ := by
    rw [applyPrimitives_made _ defs (wired.store made).nodeIds, cascade_again wired defs irrefl forward result, ← read,
      store_again]
  have count : made.length = ((g.store made).writes defs g.executionOrder).length := congrArg List.length read
  exact ⟨⟨fun _ => last_of_result wired defs result all, nodes_of_result wired defs result, rfl, rfl, count, again⟩,
    fun _ lead place => feedsWidget_iff_supplies lead defs place⟩

-- Two primitives feed one widget, the later of them with what it gets from a third one.
def relayDefinitions : Definitions :=
  .ofRegistry ((Registry.standard.insert ((Operation.named "Blur").addRequired "amount" (.text "INT"))).insert
    ((Operation.named "PrimitiveNode").addRequired "value" (.text "INT")))

def holder (id : Int64) (value : Nat) (outward : LinkId) : Node :=
  { Node.plain (.number id) "PrimitiveNode" with
    outputs := [{ OutputSlot.plain "INT" "INT" with links := some [outward] }]
    widgets := some [.ofNat value] }

def convertedInput (name : String) (inward : LinkId) : InputSlot :=
  { InputSlot.plain name "INT" with link := some inward, widget := some ⟨name, []⟩ }

def relayGraph : Graph where
  nodes := [
    { Node.plain (.number 3) "Blur" with
      inputs := [convertedInput "amount" 2, convertedInput "amount" 3]
      widgets := some [.ofNat 7] },
    holder 1 12 1,
    holder 4 9 3,
    { holder 2 5 2 with inputs := [convertedInput "value" 1] }]
  links := [⟨1, .number 1, 0, .number 2, 0, "INT"⟩, ⟨2, .number 2, 0, .number 3, 0, "INT"⟩,
    ⟨3, .number 4, 0, .number 3, 1, "INT"⟩]
  nextLinkId := 4

theorem acyclic_precedes_of_rank {g : Graph} (rank : NodeId → Nat)
    (rises : ∀ link ∈ g.links, rank link.origin < rank link.target) : Acyclic g.Precedes := by
  refine acyclic_of_rank rank fun a b link => ?_
  obtain ⟨stored, member, rfl, rfl, _⟩ := link
  exact rises stored member

theorem applyPrimitives_cascade_relay :
    let pass := relayGraph.applyPrimitives relayDefinitions relayGraph.executionOrder
    relayGraph.Wired ∧ Acyclic relayGraph.Precedes ∧
      relayGraph.executionOrder = [1, 4, 2, 3].map NodeId.number ∧
      (relayDefinitions.operation? "PrimitiveNode").isSome ∧
      Cascaded relayDefinitions relayGraph.executionOrder relayGraph pass ∧
      pass.graph.Fed relayDefinitions (.number 3, 0) ∧
      pass.graph.widgetAt? (.number 3, 0) = some (.ofNat 12) ∧ pass.written = 3 := by
  intro pass
  have wired : relayGraph.Wired := by decide +kernel
  have acyclic : Acyclic relayGraph.Precedes :=
    acyclic_precedes_of_rank ([.number 1, .number 2, .number 4, .number 3].idxOf ·) (by decide)
  refine ⟨wired, acyclic, by decide +kernel, by decide +kernel,
    (applyPrimitives_cascade relayGraph wired acyclic relayDefinitions).1, ?_, by decide +kernel, by decide +kernel⟩
  exact ⟨.number 4, .ofNat 9, holder 4 9 3, by decide +kernel, by decide +kernel, rfl, (.number 3, 1),
    ⟨by decide, ⟨3, .number 4, 0, .number 3, 1, "INT"⟩, by decide +kernel, ⟨rfl, rfl⟩, rfl⟩, rfl, by decide +kernel⟩

-- The sequencing output stands behind the value.
def trailingHolder : Node :=
  { holder 1 12 1 with
    outputs := [{ OutputSlot.plain "INT" "INT" with links := some [1] }, OutputSlot.plain "TO" flowType] }

def trailingGraph : Graph where
  nodes := [
    trailingHolder,
    { Node.plain (.number 2) "Blur" with
      inputs := [convertedInput "amount" 1]
      widgets := some [.ofNat 7] }]
  links := [⟨1, .number 1, 0, .number 2, 0, "INT"⟩]
  nextLinkId := 2

/-- The output that is read is the sequencing one, and nothing is written. -/
theorem applyPrimitives_cascade_trailing :
    let pass := trailingGraph.applyPrimitives relayDefinitions trailingGraph.executionOrder
    trailingGraph.Wired ∧ Acyclic trailingGraph.Precedes ∧
      trailingGraph.node? (.number 1) = some trailingHolder ∧
      relayDefinitions.registry.virtualKind? trailingHolder.type = some .primitive ∧
      trailingHolder.widgetValues.head? = some (.ofNat 12) ∧
      (∀ other ∈ trailingGraph.nodes, relayDefinitions.registry.virtualKind? other.type = some .primitive →
        other = trailingHolder) ∧
      trailingGraph.Supplies relayDefinitions trailingHolder 0 (.number 2, 0) ∧
      pass.graph = trailingGraph ∧ pass.written = 0 ∧
      trailingGraph.widgetAt? (.number 2, 0) = some (.ofNat 7) := by
  intro pass
  have supplies : trailingGraph.Supplies relayDefinitions trailingHolder 0 (.number 2, 0) :=
    ⟨_, .direct ⟨1, .number 1, 0, .number 2, 0, "INT"⟩ List.mem_cons_self ⟨0, rfl, rfl, rfl⟩, rfl, by decide +kernel⟩
  exact ⟨by decide +kernel, acyclic_precedes_of_rank ([.number 1, .number 2].idxOf ·) (by decide), by decide +kernel,
    by decide +kernel, rfl, by decide +kernel, supplies, by decide +kernel, by decide +kernel, by decide +kernel⟩

end Graph
end Patchbay
