import Patchbay.Proofs.Ordering.Schedule
import Patchbay.Proofs.Reordering.Alike

/-!
Primitives of graphs with the same data write the same values, in whichever order. Two writes never go to the same
widget. Main statement: `Graph.SameData.resolvePrimitives`.
-/
set_option autoImplicit false

namespace Patchbay

/-! ### Writes in another order -/

theorem storeAll_perm {a b : List WidgetWrite} (perm : a.Perm b)
    (apart : ∀ x ∈ a, ∀ y ∈ a, x.samePlace y → x = y) (id : NodeId) (widgets : Option (List Json)) :
    storeAll a id widgets = storeAll b id widgets := by
  refine perm.foldl_eq' (fun x memberX y memberY widgets => ?_) widgets
  by_cases same : x.samePlace y
  · rw [apart x memberX y memberY same]
  · exact x.store_comm y same id widgets

/-! ### Where writes go -/

-- Inputs that were converted from a widget were not converted from the same one.
def Node.WidgetsDiffer (node : Node) : Prop := (node.inputs.filterMap fun slot => slot.widget.map (·.name)).Nodup

instance (node : Node) : Decidable node.WidgetsDiffer := inferInstanceAs (Decidable (List.Nodup _))

theorem Node.WidgetsDiffer.eq {node : Node} (differ : node.WidgetsDiffer) {i j : Nat} {a b : InputSlot}
    {first second : WidgetMark} (placeA : node.inputs[i]? = some a) (placeB : node.inputs[j]? = some b)
    (markA : a.widget = some first) (markB : b.widget = some second) (name : first.name = second.name) : i = j := by
  have apart := List.pairwise_iff_getElem.1 (List.pairwise_filterMap.1 differ)
  obtain ⟨belowI, rfl⟩ := List.getElem?_eq_some_iff.1 placeA
  obtain ⟨belowJ, rfl⟩ := List.getElem?_eq_some_iff.1 placeB
  rcases Nat.lt_trichotomy i j with less | same | more
  · exact absurd name (apart i j belowI belowJ less first.name (by rw [markA]; rfl) second.name (by rw [markB]; rfl))
  · exact same
  · exact absurd name.symm
      (apart j i belowJ belowI more second.name (by rw [markB]; rfl) first.name (by rw [markA]; rfl))

theorem WidgetSpec.indexOf?_inj {layout : List WidgetSpec} {a b : String} {index : Nat}
    (first : indexOf? layout a = some index) (second : indexOf? layout b = some index) : a = b := by
  obtain ⟨below, nameA, _⟩ := List.findIdx?_eq_some_iff_getElem.1 first
  obtain ⟨_, nameB, _⟩ := List.findIdx?_eq_some_iff_getElem.1 second
  exact (eq_of_beq nameA).symm.trans (eq_of_beq nameB)

namespace Graph

/-- An input is fed by the first data output of one node at most. -/
def FedOnce (g : Graph) : Prop :=
  ∀ {a b node : Node} {targetsA targetsB : List (NodeId × Nat)} {target : NodeId × Nat} {slot : InputSlot},
    a ∈ g.nodes → b ∈ g.nodes → g.firstTargets? a = some targetsA → g.firstTargets? b = some targetsB →
    target ∈ targetsA → target ∈ targetsB → node ∈ g.nodes → node.id = target.1 →
    node.inputs[target.2]? = some slot → a.id = b.id

theorem primitive?_eq_some_iff (g : Graph) (r : Registry) (id : NodeId) (value : Json)
    (targets : List (NodeId × Nat)) : g.primitive? r id = some (value, targets) ↔
      ∃ node, g.node? id = some node ∧ r.virtualKind? node.type = some .primitive ∧
        node.widgetValues.head? = some value ∧ g.firstTargets? node = some targets := by
  unfold primitive? firstTargets?
  cases g.node? id with
  | none => simp
  | some node =>
    by_cases primitive : r.virtualKind? node.type = some .primitive
    · simp only [Option.bind_eq_bind, Option.bind_some, primitive, beq_self_eq_true, if_true, Option.bind_eq_some_iff,
        Option.map_eq_some_iff, Option.some.injEq]
      constructor
      · rintro ⟨held, first, output, there, same⟩
        cases same
        exact ⟨node, rfl, primitive, first, output, there, rfl⟩
      · rintro ⟨_, rfl, _, first, output, there, same⟩
        exact ⟨value, first, output, there, by rw [same]; rfl⟩
    · simp [primitive]

theorem widgetIndex?_eq_some_iff (g : Graph) (defs : Definitions) (target : NodeId × Nat) (index : Nat) :
    g.widgetIndex? defs target = some index ↔
      ∃ node op slot mark, g.node? target.1 = some node ∧ defs.operation? node.type = some op ∧
        node.inputs[target.2]? = some slot ∧ slot.widget = some mark ∧
        WidgetSpec.indexOf? (op.layout defs.registry) mark.name = some index := by
  simp only [widgetIndex?, Option.bind_eq_bind, Option.bind_eq_some_iff]
  constructor
  · rintro ⟨node, found, op, known, slot, place, mark, marked, stored⟩
    exact ⟨node, op, slot, mark, found, known, place, marked, stored⟩
  · rintro ⟨node, op, slot, mark, found, known, place, marked, stored⟩
    exact ⟨node, found, op, known, slot, place, mark, marked, stored⟩

theorem mem_writesOf_iff (g : Graph) (defs : Definitions) (id : NodeId) (write : WidgetWrite) :
    write ∈ g.writesOf defs id ↔ ∃ value targets target index, g.primitive? defs.registry id = some (value, targets) ∧
      target ∈ targets ∧ g.widgetIndex? defs target = some index ∧ write = ⟨target.1, index, value⟩ := by
  unfold writesOf
  cases found : g.primitive? defs.registry id with
  | none => simp
  | some primitive =>
    simp only [writesTo, List.mem_filterMap, Option.map_eq_some_iff, Option.some.injEq]
    constructor
    · rintro ⟨target, member, index, place, same⟩
      exact ⟨primitive.1, primitive.2, target, index, rfl, member, place, same.symm⟩
    · rintro ⟨_, _, target, index, same, member, place, equal⟩
      cases same
      exact ⟨target, member, index, place, equal.symm⟩

section Apart

variable {g : Graph} (distinct : g.nodeIds.Nodup) (fedOnce : g.FedOnce) (widgets : ∀ node ∈ g.nodes, node.WidgetsDiffer)

include distinct fedOnce widgets in
/-- What goes to one widget comes from one primitive. -/
theorem writes_apart (defs : Definitions) (order : List NodeId) : ∀ x ∈ g.writes defs order,
    ∀ y ∈ g.writes defs order, x.samePlace y → x = y := by
  rintro x memberX y memberY ⟨sameNode, sameIndex⟩
  obtain ⟨a, _, madeX⟩ := List.mem_flatMap.1 memberX
  obtain ⟨b, _, madeY⟩ := List.mem_flatMap.1 memberY
  obtain ⟨valueA, targetsA, targetA, indexA, primitiveA, listedA, placeA, rfl⟩ := (mem_writesOf_iff ..).1 madeX
  obtain ⟨valueB, targetsB, targetB, indexB, primitiveB, listedB, placeB, rfl⟩ := (mem_writesOf_iff ..).1 madeY
  simp only at sameNode sameIndex
  subst sameIndex
  obtain ⟨node, op, slotA, markA, found, known, atA, markedA, storedA⟩ := (widgetIndex?_eq_some_iff ..).1 placeA
  obtain ⟨other, opB, slotB, markB, foundB, knownB, atB, markedB, storedB⟩ := (widgetIndex?_eq_some_iff ..).1 placeB
  -- Both writes go to one node, so to one of its inputs.
  rw [← sameNode, found] at foundB
  cases foundB
  rw [known] at knownB
  cases knownB
  obtain ⟨member, sameId⟩ := (node?_eq_some_iff distinct _ node).1 found
  have sameSlot := (widgets node member).eq atA atB markedA markedB (WidgetSpec.indexOf?_inj storedA storedB)
  have target : targetA = targetB := Prod.ext sameNode sameSlot
  obtain ⟨first, foundFirst, _, valueFirst, fedFirst⟩ := (primitive?_eq_some_iff ..).1 primitiveA
  obtain ⟨second, foundSecond, _, valueSecond, fedSecond⟩ := (primitive?_eq_some_iff ..).1 primitiveB
  obtain ⟨memberFirst, idFirst⟩ := (node?_eq_some_iff distinct _ first).1 foundFirst
  obtain ⟨memberSecond, idSecond⟩ := (node?_eq_some_iff distinct _ second).1 foundSecond
  have origin := fedOnce memberFirst memberSecond fedFirst fedSecond listedA (target ▸ listedB) member sameId atA
  rw [idFirst, idSecond] at origin
  rw [← origin, foundFirst] at foundSecond
  cases foundSecond
  rw [valueFirst] at valueSecond
  cases valueSecond
  rw [sameNode]

end Apart

/-! ### Graphs with the same data -/

namespace SameData

variable {g h : Graph} (same : g.SameData h)

include same in
theorem primitive? (r : Registry) (id : NodeId) : g.primitive? r id = h.primitive? r id := by
  have fed := same.targets id
  cases found : g.node? id with
  | none =>
    rw [Graph.primitive?, Graph.primitive?, found, same.node?_eq_none found]
    rfl
  | some node =>
    obtain ⟨other, foundToo, alike⟩ := same.exists_node found
    have type : node.type = other.type := (congrArg Node.type alike :)
    have values : node.widgetValues = other.widgetValues := (congrArg Node.widgetValues alike :)
    rw [found, foundToo, Option.bind_some, Option.bind_some] at fed
    apply Option.ext
    rintro ⟨value, targets⟩
    rw [primitive?_eq_some_iff, primitive?_eq_some_iff, found, foundToo]
    simp only [Option.some.injEq, exists_eq_left', type, values, fed]

include same in
theorem widgetIndex?_trans {defs : Definitions} {target : NodeId × Nat} {index : Nat}
    (there : g.widgetIndex? defs target = some index) : h.widgetIndex? defs target = some index := by
  obtain ⟨node, op, slot, mark, found, known, place, marked, stored⟩ := (widgetIndex?_eq_some_iff ..).1 there
  obtain ⟨other, foundToo, alike⟩ := same.exists_node found
  have type : node.type = other.type := (congrArg Node.type alike :)
  have marks := congrArg (fun node : Node => node.inputs[target.2]?.bind (·.widget)) alike
  simp only [Node.unsequenced, List.getElem?_map, Option.bind_map, Function.comp_def, InputSlot.widget_unsequenced,
    place, Option.bind_some, marked] at marks
  obtain ⟨slotToo, placeToo, markedToo⟩ := Option.bind_eq_some_iff.1 marks.symm
  exact (widgetIndex?_eq_some_iff ..).2 ⟨other, op, slotToo, mark, foundToo, type ▸ known, placeToo, markedToo, stored⟩

include same in
theorem widgetIndex? (defs : Definitions) (target : NodeId × Nat) :
    g.widgetIndex? defs target = h.widgetIndex? defs target :=
  Option.ext fun _ => ⟨same.widgetIndex?_trans, same.symm.widgetIndex?_trans⟩

include same in
theorem writesOf (defs : Definitions) (id : NodeId) : g.writesOf defs id = h.writesOf defs id := by
  have places : g.widgetIndex? defs = h.widgetIndex? defs := funext (same.widgetIndex? defs)
  rw [Graph.writesOf, Graph.writesOf, same.primitive?]
  cases h.primitive? defs.registry id with
  | none => rfl
  | some primitive => simp only [writesTo, places]

theorem incoming?_store (writes : List WidgetWrite) (k : Graph) : (k.store writes).incoming? = k.incoming? := by
  funext id slot
  rw [incoming?, incoming?, node?_store]
  cases k.node? id <;> rfl

include same in
theorem store (writes : List WidgetWrite) : (g.store writes).SameData (h.store writes) := by
  have before : ∀ {id : NodeId} {node : Node}, (g.store writes).node? id = some node →
      ∃ old, g.node? id = some old ∧ old.store writes = node := by
    intro id node found
    rw [node?_store] at found
    exact Option.map_eq_some_iff.1 found
  constructor
  · intro id
    have kept : ((·.unsequenced) ∘ (·.store writes) : Node → Node) = (·.store writes) ∘ (·.unsequenced) := rfl
    rw [node?_store, node?_store, Option.map_map, Option.map_map, kept, ← Option.map_map, ← Option.map_map, same.nodes]
  · intro id node slot input found place data
    obtain ⟨old, there, rfl⟩ := before found
    rw [incoming?_store, incoming?_store]
    exact same.fed id old slot input there place data
  · intro id node slot found
    obtain ⟨old, there, rfl⟩ := before found
    rw [incoming?_store, incoming?_store]
    exact same.passed id old slot there
  · intro id
    rw [node?_store, node?_store, Option.bind_map, Option.bind_map]
    exact same.targets id

variable (distinctG : g.nodeIds.Nodup) (distinctH : h.nodeIds.Nodup)

include same distinctG distinctH in
theorem writes_perm (defs : Definitions) : (g.writes defs g.executionOrder).Perm (h.writes defs h.executionOrder) := by
  have order : g.executionOrder.Perm h.executionOrder :=
    ((g.executionOrder_placing distinctG).perm distinctG).trans <|
      ((List.perm_ext_iff_of_nodup distinctG distinctH).2 same.mem_nodeIds).trans
        ((h.executionOrder_placing distinctH).perm distinctH).symm
  have each : g.writesOf defs = h.writesOf defs := funext (same.writesOf defs)
  rw [writes, writes, each]
  exact order.flatMap_right _

include same distinctG distinctH in
theorem resolvePrimitives (defs : Definitions) (apart : Apart defs) (fedOnce : g.FedOnce)
    (widgets : ∀ node ∈ g.nodes, node.WidgetsDiffer) :
    (Compiler.resolvePrimitives g defs).SameData (Compiler.resolvePrimitives h defs) := by
  have stored : ∀ id widgets, storeAll (g.writes defs g.executionOrder) id widgets =
      storeAll (h.writes defs h.executionOrder) id widgets :=
    storeAll_perm (same.writes_perm distinctG distinctH defs) (writes_apart distinctG fedOnce widgets defs _)
  have kept : h.store (h.writes defs h.executionOrder) = h.store (g.writes defs g.executionOrder) := by
    simp only [Graph.store, Node.store, stored]
  rw [Compiler.resolvePrimitives_eq g defs apart distinctG, Compiler.resolvePrimitives_eq h defs apart distinctH, kept]
  exact same.store _

end SameData

end Graph
end Patchbay
