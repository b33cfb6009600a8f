import Patchbay.Proofs.Graph.Forwards
import Patchbay.Proofs.Group.Boundary
import Patchbay.Proofs.Primitive.Pass
import Patchbay.Proofs.Reordering.Writes

/-!
What a primitive supplies. It writes to the widgets that its links lead to; a widget that it feeds through pass-through
nodes keeps its value, although every other walk goes on behind such nodes.
-/
set_option autoImplicit false

namespace Patchbay

/-! ### Reading what was stored -/

theorem getElem?_setValue_of_ne {values : List Json} {index i : Nat} {held : Json} (apart : index ≠ i)
    (there : values[i]? = some held) (value : Json) : (setValue values index value)[i]? = some held := by
  rw [setValue, List.getElem?_set_ne apart, List.getElem?_append_left (List.getElem?_eq_some_iff.1 there).1, there]

section Stored

variable {writes : List WidgetWrite} {id : NodeId} {index : Nat} {value : Json}

-- A missing value reads as `null`, and others may be filled up with it.
theorem storeAll_kept (other : ∀ write ∈ writes, write.node = id → write.index ≠ index) (widgets : Option (List Json)) :
    ((storeAll writes id widgets).getD [])[index]?.getD .null = (widgets.getD [])[index]?.getD .null := by
  induction writes generalizing widgets with
  | nil => rfl
  | cons write rest ih =>
    rw [storeAll, List.foldl_cons]
    refine (ih (fun later member => other later (List.mem_cons_of_mem _ member)) _).trans ?_
    rw [WidgetWrite.store]
    by_cases here : write.node = id
    · rw [if_pos here, Option.getD_some, getD_setValue, if_neg (other write List.mem_cons_self here)]
    · rw [if_neg here]

theorem storeAll_stored (one : ∀ write ∈ writes, write.node = id → write.index = index → write.value = value)
    (widgets : Option (List Json))
    (held : (∃ write ∈ writes, write.node = id ∧ write.index = index) ∨ (widgets.getD [])[index]? = some value) :
    ((storeAll writes id widgets).getD [])[index]? = some value := by
  induction writes generalizing widgets with
  | nil => exact held.resolve_left (by simp)
  | cons write rest ih =>
    rw [storeAll, List.foldl_cons]
    refine ih (fun later member => one later (List.mem_cons_of_mem _ member)) _ ?_
    by_cases later : ∃ write ∈ rest, write.node = id ∧ write.index = index
    · exact .inl later
    refine .inr ?_
    rw [WidgetWrite.store]
    by_cases here : write.node = id
    · rw [if_pos here, Option.getD_some]
      by_cases same : write.index = index
      · rw [same, getElem?_setValue_self, one write List.mem_cons_self here same]
      · refine getElem?_setValue_of_ne same (held.resolve_left ?_) _
        simpa [same] using later
    · rw [if_neg here]
      refine held.resolve_left ?_
      simpa [here] using later

end Stored

namespace Graph

/-! ### Feeding through pass-through nodes -/

/-- The first data output of the node leads to an input, through so many pass-through nodes with one data input and one
data output each. -/
inductive Feeds (g : Graph) (r : Registry) (source : Node) : Nat → NodeId × Nat → Prop where
  | direct (link : Link) (member : link ∈ g.links) (leaves : link.leavesData source 0) :
      Feeds g r source 0 (link.target, link.targetSlot.toNat)
  | through (steps : Nat) (node : Node) (input : Nat) (link : Link) (before : Feeds g r source steps (node.id, input))
      (inside : node ∈ g.nodes) (passing : r.isPassThrough node.type) (oneInput : node.dataInputs = [input])
      (oneOutput : node.dataOutputs.length = 1) (member : link ∈ g.links) (leaves : link.leavesData node 0) :
      Feeds g r source (steps + 1) (link.target, link.targetSlot.toNat)

-- The output that a pass reads, the one behind the sequencing outputs, leads to the input.
def LeadsTo (g : Graph) (source : Node) (target : NodeId × Nat) : Prop :=
  source.flowOutputCount < source.outputs.length ∧
    ∃ link ∈ g.links, link.leavesAt source.id source.flowOutputCount ∧ (link.target, link.targetSlot.toNat) = target

theorem leadsTo_iff_feeds {g : Graph} {source : Node} (lead : source.flowSlotsLead = true) (r : Registry)
    (target : NodeId × Nat) : g.LeadsTo source target ↔ g.Feeds r source 0 target := by
  constructor
  · rintro ⟨below, link, inside, leaves, rfl⟩
    exact .direct link inside ⟨_, (getElem?_dataOutputs lead 0 _).2 ⟨rfl, below⟩, leaves⟩
  · intro feeds
    cases feeds with
    | direct link inside leaves =>
      obtain ⟨slot, place, leaves⟩ := leaves
      obtain ⟨rfl, below⟩ := (getElem?_dataOutputs lead 0 slot).1 place
      exact ⟨below, link, inside, leaves, rfl⟩

-- One of the inputs was converted from the widget that stands at the place.
def Supplies (g : Graph) (defs : Definitions) (source : Node) (steps : Nat) (place : NodeId × Nat) : Prop :=
  ∃ target, g.Feeds defs.registry source steps target ∧ target.1 = place.1 ∧ g.widgetIndex? defs target = some place.2

-- The same of the output that a pass reads.
def FeedsWidget (g : Graph) (defs : Definitions) (source : Node) (place : NodeId × Nat) : Prop :=
  ∃ target, g.LeadsTo source target ∧ target.1 = place.1 ∧ g.widgetIndex? defs target = some place.2

-- The node is a primitive with this value in its first widget, which it hands to the widget at the place.
def Hands (g : Graph) (defs : Definitions) (id : NodeId) (place : NodeId × Nat) (value : Json) : Prop :=
  ∃ node, g.node? id = some node ∧ defs.registry.virtualKind? node.type = some .primitive ∧
    node.widgetValues.head? = some value ∧ g.FeedsWidget defs node place

theorem feedsWidget_iff_supplies {g : Graph} {source : Node} (lead : source.flowSlotsLead = true) (defs : Definitions)
    (place : NodeId × Nat) : g.FeedsWidget defs source place ↔ g.Supplies defs source 0 place :=
  exists_congr fun target => and_congr_left fun _ => leadsTo_iff_feeds lead defs.registry target

def widgetAt? (g : Graph) (place : NodeId × Nat) : Option Json :=
  (g.node? place.1).bind fun node => node.widgetValues[place.2]?

section Supply

variable {g : Graph} (wired : g.Wired) {defs : Definitions}

include wired in
theorem mem_targetsOf_iff {node : Node} (member : node ∈ g.nodes) {slot : Nat} {output : OutputSlot}
    (place : node.outputs[slot]? = some output) (target : NodeId × Nat) : target ∈ g.targetsOf output ↔
      ∃ link ∈ g.links, link.leavesAt node.id slot ∧ (link.target, link.targetSlot.toNat) = target := by
  have held := (wired.place_outputs member slot output place).2
  constructor
  · intro reached
    obtain ⟨link, listed, rfl⟩ := List.mem_map.1 reached
    obtain ⟨id, inside, found⟩ := List.mem_filterMap.1 listed
    obtain ⟨member, sameId⟩ := wired.link?_eq_some_iff.1 found
    obtain ⟨other, memberToo, sameToo, leaves⟩ := (held id).1 inside
    rw [wired.link_unique memberToo member (sameToo.trans sameId.symm)] at leaves
    exact ⟨link, member, leaves, rfl⟩
  · rintro ⟨link, inside, leaves, rfl⟩
    refine List.mem_map.2 ⟨link, List.mem_filterMap.2 ⟨link.id, (held link.id).2 ⟨link, inside, rfl, leaves⟩, ?_⟩, rfl⟩
    exact wired.link?_eq_some_iff.2 ⟨inside, rfl⟩

include wired in
theorem mem_firstTargets?_iff {node : Node} (member : node ∈ g.nodes) (target : NodeId × Nat) :
    (∃ targets, g.firstTargets? node = some targets ∧ target ∈ targets) ↔ g.LeadsTo node target := by
  constructor
  · rintro ⟨_, first, reached⟩
    obtain ⟨output, place, rfl⟩ := Option.map_eq_some_iff.1 first
    exact ⟨(List.getElem?_eq_some_iff.1 place).1, (mem_targetsOf_iff wired member place target).1 reached⟩
  · rintro ⟨below, reached⟩
    have output := List.getElem?_eq_getElem below
    exact ⟨_, congrArg (Option.map g.targetsOf) output, (mem_targetsOf_iff wired member output target).2 reached⟩

include wired in
theorem mem_writesOf_iff_hands (defs : Definitions) (id : NodeId) (write : WidgetWrite) :
    write ∈ g.writesOf defs id ↔ g.Hands defs id (write.node, write.index) write.value := by
  rw [mem_writesOf_iff]
  constructor
  · rintro ⟨value, targets, target, index, primitive, reached, place, rfl⟩
    obtain ⟨node, found, kind, held, first⟩ := (primitive?_eq_some_iff ..).1 primitive
    have member := ((node?_eq_some_iff wired.nodeIds _ _).1 found).1
    have leads := (mem_firstTargets?_iff wired member target).1 ⟨targets, first, reached⟩
    exact ⟨node, found, kind, held, target, leads, rfl, place⟩
  · rintro ⟨node, found, kind, held, target, leads, same, place⟩
    have member := ((node?_eq_some_iff wired.nodeIds _ _).1 found).1
    obtain ⟨targets, first, reached⟩ := (mem_firstTargets?_iff wired member target).2 leads
    refine ⟨_, targets, target, _, (primitive?_eq_some_iff ..).2 ⟨node, found, kind, held, first⟩, reached, place, ?_⟩
    rw [same]

-- In a graph that runs, the sequencing slots come first.
def PrimitivesLead (g : Graph) (r : Registry) : Prop :=
  ∀ node ∈ g.nodes, r.virtualKind? node.type = some .primitive → node.flowSlotsLead = true

variable (lead : g.PrimitivesLead defs.registry)

include wired lead in
theorem mem_writes_iff (order : List NodeId) (write : WidgetWrite) : write ∈ g.writes defs order ↔
    ∃ node ∈ g.nodes, node.id ∈ order ∧ defs.registry.virtualKind? node.type = some .primitive ∧
      node.widgetValues.head? = some write.value ∧ g.Supplies defs node 0 (write.node, write.index) := by
  rw [writes, List.mem_flatMap]
  constructor
  · rintro ⟨id, visited, made⟩
    obtain ⟨node, found, kind, held, feeds⟩ := (mem_writesOf_iff_hands wired defs id write).1 made
    obtain ⟨member, rfl⟩ := (node?_eq_some_iff wired.nodeIds _ _).1 found
    exact ⟨node, member, visited, kind, held, (feedsWidget_iff_supplies (lead node member kind) defs _).1 feeds⟩
  · rintro ⟨node, member, visited, kind, held, supplies⟩
    have found := (node?_eq_some_iff wired.nodeIds _ _).2 ⟨member, rfl⟩
    have feeds := (feedsWidget_iff_supplies (lead node member kind) defs _).2 supplies
    exact ⟨node.id, visited, (mem_writesOf_iff_hands wired defs node.id write).2 ⟨node, found, kind, held, feeds⟩⟩

theorem widgetAt?_store (g : Graph) (writes : List WidgetWrite) (place : NodeId × Nat) :
    (g.store writes).widgetAt? place =
      (g.node? place.1).bind fun node => ((storeAll writes place.1 node.widgets).getD [])[place.2]? := by
  rw [widgetAt?, node?_store]
  cases found : g.node? place.1 with
  | none => rfl
  | some node =>
    rw [← id_of_node? found]
    rfl

end Supply

/-- A primitive that alone supplies a widget has its value stored there exactly when one of its own links leads to the
widget. Where it does so only through pass-through nodes, the widget stays as it is. -/
theorem applyPrimitives_supplies (g : Graph) (wired : g.Wired) (defs : Definitions) (order : List NodeId)
    (all : ∀ id ∈ g.nodeIds, id ∈ order) (unmixed : g.Unmixed defs) (lead : g.PrimitivesLead defs.registry)
    (primitive : Node) (member : primitive ∈ g.nodes)
    (kind : defs.registry.virtualKind? primitive.type = some .primitive) (value : Json)
    (held : primitive.widgetValues.head? = some value) (place : NodeId × Nat)
    (alone : ∀ other ∈ g.nodes, defs.registry.virtualKind? other.type = some .primitive → ∀ steps,
      g.Supplies defs other steps place → other = primitive) :
    (g.Supplies defs primitive 0 place → (g.applyPrimitives defs order).graph.widgetAt? place = some value) ∧
      (¬ g.Supplies defs primitive 0 place →
        ((g.applyPrimitives defs order).graph.widgetAt? place).getD .null = (g.widgetAt? place).getD .null) := by
  have placed : ∀ write ∈ g.writes defs order, write.node = place.1 → write.index = place.2 →
      write.value = value ∧ g.Supplies defs primitive 0 place := by
    intro write made node index
    obtain ⟨other, inside, _, kindToo, heldToo, supplies⟩ := (mem_writes_iff wired lead order write).1 made
    rw [node, index] at supplies
    have same := alone other inside kindToo 0 supplies
    subst same
    exact ⟨Option.some.inj (heldToo.symm.trans held), supplies⟩
  rw [g.applyPrimitives_graph defs unmixed wired.nodeIds, widgetAt?_store]
  constructor
  · intro supplies
    have made := (mem_writes_iff wired lead order ⟨place.1, place.2, value⟩).2
      ⟨primitive, member, all _ (List.mem_map_of_mem member), kind, held, supplies⟩
    obtain ⟨target, _, node, index⟩ := supplies
    obtain ⟨there, _, _, _, found, _⟩ := (widgetIndex?_eq_some_iff ..).1 index
    rw [← node, found, Option.bind_some]
    exact storeAll_stored (fun write inside sameNode sameIndex => (placed write inside (sameNode.trans node) sameIndex).1) _
      (.inl ⟨_, made, node.symm, rfl⟩)
  · intro unsupplied
    rw [widgetAt?]
    cases g.node? place.1 with
    | none => rfl
    | some node =>
      exact storeAll_kept (fun write inside sameNode sameIndex => unsupplied (placed write inside sameNode sameIndex).2) _

-- One value goes to two nodes, to one of them by way of a reroute.
def spreader : Node :=
  { Node.plain (.number 1) "PrimitiveNode" with
    outputs := [{ OutputSlot.plain "INT" "INT" with links := some [1, 2] }]
    widgets := some [.ofNat 12] }

def spreadRelay : Node :=
  { Node.plain (.number 3) "Reroute" with
    inputs := [{ InputSlot.plain "" "*" with link := some 2 }]
    outputs := [{ OutputSlot.plain "" "*" with links := some [3] }] }

def spreadGraph : Graph where
  nodes := [
    spreader,
    { Node.plain (.number 2) "Blur" with
      inputs := [{ InputSlot.plain "amount" "INT" with link := some 1, widget := some ⟨"amount", []⟩ }]
      widgets := some [.ofNat 7] },
    spreadRelay,
    { Node.plain (.number 4) "Blur" with
      inputs := [{ InputSlot.plain "amount" "INT" with link := some 3, widget := some ⟨"amount", []⟩ }]
      widgets := some [.ofNat 7] }]
  links := [⟨1, .number 1, 0, .number 2, 0, "INT"⟩, ⟨2, .number 1, 0, .number 3, 0, "INT"⟩,
    ⟨3, .number 3, 0, .number 4, 0, "INT"⟩]
  nextLinkId := 4

instance (g : Graph) (defs : Definitions) : Decidable (g.Unmixed defs) := inferInstanceAs (Decidable (∀ _ ∈ _, _))

instance (g : Graph) (r : Registry) : Decidable (g.PrimitivesLead r) := inferInstanceAs (Decidable (∀ _ ∈ _, _))

theorem applyPrimitives_supplies_spread :
    spreadGraph.Wired ∧ spreadGraph.Unmixed blurDefinitions ∧ spreadGraph.PrimitivesLead blurDefinitions.registry ∧
      spreader ∈ spreadGraph.nodes ∧ blurDefinitions.registry.virtualKind? spreader.type = some .primitive ∧
      (∀ other ∈ spreadGraph.nodes, blurDefinitions.registry.virtualKind? other.type = some .primitive →
        other = spreader) ∧
      spreadGraph.Supplies blurDefinitions spreader 0 (.number 2, 0) ∧
      (spreadGraph.applyPrimitives blurDefinitions spreadGraph.nodeIds).graph.widgetAt? (.number 2, 0) =
        some (.ofNat 12) := by
  have wired : spreadGraph.Wired := by decide +kernel
  have unmixed : spreadGraph.Unmixed blurDefinitions := by decide +kernel
  have lead : spreadGraph.PrimitivesLead blurDefinitions.registry := by decide +kernel
  have member : spreader ∈ spreadGraph.nodes := List.mem_cons_self
  have kind : blurDefinitions.registry.virtualKind? spreader.type = some .primitive := by decide +kernel
  have alone : ∀ other ∈ spreadGraph.nodes, blurDefinitions.registry.virtualKind? other.type = some .primitive →
      other = spreader := by decide +kernel
  have supplies : spreadGraph.Supplies blurDefinitions spreader 0 (.number 2, 0) :=
    ⟨_, .direct ⟨1, .number 1, 0, .number 2, 0, "INT"⟩ List.mem_cons_self ⟨0, rfl, rfl, rfl⟩, rfl, by decide +kernel⟩
  refine ⟨wired, unmixed, lead, member, kind, alone, supplies, ?_⟩
  exact (applyPrimitives_supplies spreadGraph wired blurDefinitions spreadGraph.nodeIds (fun _ inside => inside) unmixed
    lead spreader member kind (.ofNat 12) rfl (.number 2, 0) fun other inside same _ _ => alone other inside same).1 supplies

/-- Behind the reroute the value does not arrive, and the old one is sent. -/
theorem applyPrimitives_astray :
    spreadGraph.Wired ∧ spreadGraph.Unmixed blurDefinitions ∧ spreadGraph.PrimitivesLead blurDefinitions.registry ∧
      spreader ∈ spreadGraph.nodes ∧ blurDefinitions.registry.virtualKind? spreader.type = some .primitive ∧
      spreader.widgetValues.head? = some (.ofNat 12) ∧
      (∀ other ∈ spreadGraph.nodes, blurDefinitions.registry.virtualKind? other.type = some .primitive →
        other = spreader) ∧
      spreadGraph.Supplies blurDefinitions spreader 1 (.number 4, 0) ∧
      (spreadGraph.applyPrimitives blurDefinitions spreadGraph.nodeIds).graph.widgetAt? (.number 4, 0) ≠
        some (.ofNat 12) ∧
      (((spreadGraph.applyPrimitives blurDefinitions spreadGraph.nodeIds).graph.serialize blurDefinitions
        spreadGraph.nodeIds).get? "4").map (·.inputs.entries) = some [("amount", .literal (.ofNat 7))] := by
  have first : spreadGraph.Feeds blurDefinitions.registry spreader 0 (spreadRelay.id, 0) :=
    .direct ⟨2, .number 1, 0, .number 3, 0, "INT"⟩ (by decide) ⟨0, rfl, rfl, rfl⟩
  have second : spreadGraph.Feeds blurDefinitions.registry spreader 1 (.number 4, 0) :=
    .through 0 spreadRelay 0 ⟨3, .number 3, 0, .number 4, 0, "INT"⟩ first (by decide) (by decide +kernel) rfl rfl
      (by decide) ⟨0, rfl, rfl, rfl⟩
  have supplies : spreadGraph.Supplies blurDefinitions spreader 1 (.number 4, 0) :=
    ⟨_, second, rfl, by decide +kernel⟩
  exact ⟨by decide +kernel, by decide +kernel, by decide +kernel, List.mem_cons_self, by decide +kernel, rfl,
    by decide +kernel, supplies, by decide +kernel, by decide +kernel⟩

end Graph
end Patchbay
