import Patchbay.Compiler
import Patchbay.Proofs.Graph.Nodes
import Patchbay.Proofs.Primitive.Writes

/-!
The pass over the primitives makes a list of writes that can be read off the graph beforehand. A second
pass over the result makes the same writes and so leaves it alone.
-/
set_option autoImplicit false

namespace Patchbay

def Node.store (writes : List WidgetWrite) (node : Node) : Node :=
  { node with widgets := storeAll writes node.id node.widgets }

theorem Node.store_nil (node : Node) : node.store [] = node := rfl

theorem Node.store_append (a b : List WidgetWrite) (node : Node) :
    node.store (a ++ b) = (node.store a).store b := by
  simp only [store, storeAll_append]

theorem Node.store_again (writes : List WidgetWrite) (node : Node) :
    (node.store writes).store writes = node.store writes := by
  simp only [store, storeAll_again]

namespace Graph

def store (writes : List WidgetWrite) (g : Graph) : Graph := { g with nodes := g.nodes.map (·.store writes) }

-- Each widget on the far side of a link stands at a place that no write moves.
def widgetIndex? (g : Graph) (defs : Definitions) (target : NodeId × Nat) : Option Nat := do
  let node ← g.node? target.1
  let op ← defs.operation? node.type
  let widget ← (← node.inputs[target.2]?).widget
  WidgetSpec.indexOf? (op.layout defs.registry) widget.name

def writesTo (g : Graph) (defs : Definitions) (value : Json) (targets : List (NodeId × Nat)) :
    List WidgetWrite :=
  targets.filterMap fun target => (g.widgetIndex? defs target).map fun index => ⟨target.1, index, value⟩

def writesOf (g : Graph) (defs : Definitions) (id : NodeId) : List WidgetWrite :=
  match g.primitive? defs.registry id with
  | some (value, targets) => g.writesTo defs value targets
  | none => []

def writes (g : Graph) (defs : Definitions) (order : List NodeId) : List WidgetWrite :=
  order.flatMap (g.writesOf defs)

theorem store_nil (g : Graph) : g.store [] = g := by
  have same : g.nodes.map (·.store []) = g.nodes := List.map_id g.nodes
  rw [store, same]

theorem store_append (a b : List WidgetWrite) (g : Graph) : g.store (a ++ b) = (g.store a).store b := by
  simp only [store, List.map_map]
  congr 1
  apply List.map_congr_left
  intro node _
  exact node.store_append a b

theorem store_again (writes : List WidgetWrite) (g : Graph) : (g.store writes).store writes = g.store writes := by
  simp only [store, List.map_map]
  congr 1
  apply List.map_congr_left
  intro node _
  exact node.store_again writes

theorem nodeIds_store (writes : List WidgetWrite) (g : Graph) : (g.store writes).nodeIds = g.nodeIds := by
  simp only [nodeIds, store, List.map_map]
  rfl

theorem node?_store (writes : List WidgetWrite) (g : Graph) (id : NodeId) :
    (g.store writes).node? id = (g.node? id).map (·.store writes) :=
  g.node?_map (·.store writes) (fun _ => rfl) id

theorem widgetIndex?_store (writes : List WidgetWrite) (g : Graph) (defs : Definitions) (target : NodeId × Nat) :
    (g.store writes).widgetIndex? defs target = g.widgetIndex? defs target := by
  unfold widgetIndex?
  rw [node?_store]
  cases g.node? target.1 <;> rfl

theorem writesTo_store (writes : List WidgetWrite) (g : Graph) (defs : Definitions) (value : Json)
    (targets : List (NodeId × Nat)) : (g.store writes).writesTo defs value targets = g.writesTo defs value targets := by
  simp only [writesTo, widgetIndex?_store]

end Graph

namespace PrimitivePass

-- The pass once these writes are made. Each of them counts.
def made (pass : PrimitivePass) (writes : List WidgetWrite) : PrimitivePass :=
  ⟨pass.graph.store writes, pass.written + writes.length⟩

theorem graph_made (pass : PrimitivePass) (writes : List WidgetWrite) :
    (pass.made writes).graph = pass.graph.store writes := rfl

theorem made_nil (pass : PrimitivePass) : pass.made [] = pass :=
  congrArg₂ mk pass.graph.store_nil rfl

theorem made_append (pass : PrimitivePass) (a b : List WidgetWrite) : pass.made (a ++ b) = (pass.made a).made b := by
  simp only [made, Graph.store_append, List.length_append, Nat.add_assoc]

end PrimitivePass

namespace Graph

/-! ### One primitive -/

theorem writtenNode?_eq (g : Graph) (defs : Definitions) (value : Json) (target : NodeId × Nat) :
    g.writtenNode? defs value target =
      (g.node? target.1).bind fun node =>
        (g.widgetIndex? defs target).map fun index =>
          { node with widgets := some (setValue node.widgetValues index value) } := by
  unfold writtenNode? widgetIndex?
  cases g.node? target.1 with
  | none => rfl
  | some node =>
    cases known : defs.operation? node.type with
    | none => simp [known]
    | some op =>
      cases input : node.inputs[target.2]? with
      | none => simp [known, input]
      | some slot =>
        cases mark : slot.widget <;> simp [known, input, mark, Node.setWidget?]

theorem write_graph (defs : Definitions) (value : Json) (pass : PrimitivePass) (target : NodeId × Nat)
    (distinct : pass.graph.nodeIds.Nodup) :
    (pass.write defs value target).graph = pass.graph.store (pass.graph.writesTo defs value [target]) := by
  unfold PrimitivePass.write
  rw [writtenNode?_eq]
  cases found : pass.graph.node? target.1 with
  | none =>
    have none : pass.graph.widgetIndex? defs target = none := by
      rw [widgetIndex?, found]
      rfl
    rw [writesTo, List.filterMap_cons, none]
    exact (store_nil pass.graph).symm
  | some node =>
    cases place : pass.graph.widgetIndex? defs target with
    | none =>
      rw [writesTo, List.filterMap_cons, place]
      exact (store_nil pass.graph).symm
    | some index =>
      rw [writesTo, List.filterMap_cons, place]
      simp only [Option.bind_some, Option.map_some, List.filterMap_nil, modifyNode, store]
      congr 1
      apply List.map_congr_left
      intro other member
      by_cases same : other.id = target.1
      · have again := (node?_eq_some_iff distinct target.1 other).2 ⟨member, same⟩
        have unique : other = node := Option.some_inj.1 (again.symm.trans found)
        rw [if_pos same, ← unique]
        simp only [Node.store, storeAll, List.foldl_cons, List.foldl_nil, WidgetWrite.store]
        rw [if_pos same.symm]
        rfl
      · rw [if_neg same]
        simp only [Node.store, storeAll, List.foldl_cons, List.foldl_nil, WidgetWrite.store]
        rw [if_neg fun sameId => same sameId.symm]

theorem written_write (defs : Definitions) (value : Json) (pass : PrimitivePass) (target : NodeId × Nat) :
    (pass.write defs value target).written = pass.written + (pass.graph.writesTo defs value [target]).length := by
  unfold PrimitivePass.write
  rw [writtenNode?_eq]
  cases found : pass.graph.node? target.1 with
  | none =>
    have none : pass.graph.widgetIndex? defs target = none := by
      rw [widgetIndex?, found]
      rfl
    rw [writesTo, List.filterMap_cons, none]
    rfl
  | some node =>
    rw [writesTo, List.filterMap_cons]
    cases pass.graph.widgetIndex? defs target <;> rfl

theorem foldl_write_made (defs : Definitions) (value : Json) (targets : List (NodeId × Nat))
    (pass : PrimitivePass) (distinct : pass.graph.nodeIds.Nodup) :
    targets.foldl (PrimitivePass.write defs value) pass = pass.made (pass.graph.writesTo defs value targets) := by
  induction targets generalizing pass with
  | nil => exact pass.made_nil.symm
  | cons target rest ih =>
    have step : pass.write defs value target = pass.made (pass.graph.writesTo defs value [target]) :=
      congrArg₂ PrimitivePass.mk (write_graph defs value pass target distinct) (written_write defs value pass target)
    have kept : (pass.made (pass.graph.writesTo defs value [target])).graph.nodeIds.Nodup := by
      rw [PrimitivePass.graph_made, nodeIds_store]
      exact distinct
    have later := writesTo_store (pass.graph.writesTo defs value [target]) pass.graph defs value rest
    rw [List.foldl_cons, step, ih _ kept, PrimitivePass.graph_made, later, ← PrimitivePass.made_append,
      writesTo, writesTo, ← List.filterMap_append]
    rfl

/-! ### All primitives -/

-- No type is a primitive and an operation as well.
def Apart (defs : Definitions) : Prop :=
  ∀ type, defs.registry.virtualKind? type = some .primitive → defs.operation? type = none

-- No primitive of the graph is an operation as well.
def Unmixed (g : Graph) (defs : Definitions) : Prop :=
  ∀ node ∈ g.nodes, defs.registry.virtualKind? node.type = some .primitive → defs.operation? node.type = none

theorem Unmixed.store {g : Graph} {defs : Definitions} (unmixed : g.Unmixed defs) (writes : List WidgetWrite) :
    (g.store writes).Unmixed defs := by
  intro node member
  obtain ⟨before, inside, rfl⟩ := List.mem_map.1 member
  exact unmixed before inside

/-- None of the writes goes to a primitive. -/
def SparesPrimitives (g : Graph) (defs : Definitions) (writes : List WidgetWrite) : Prop :=
  ∀ write ∈ writes, ∀ node, g.node? write.node = some node →
    defs.registry.virtualKind? node.type ≠ some .primitive

theorem primitive?_store (writes : List WidgetWrite) (g : Graph) (defs : Definitions)
    (spares : SparesPrimitives g defs writes) (id : NodeId) :
    (g.store writes).primitive? defs.registry id = g.primitive? defs.registry id := by
  unfold primitive?
  rw [node?_store]
  cases found : g.node? id with
  | none => rfl
  | some node =>
    have sameId : node.id = id := by simpa using List.find?_some found
    by_cases primitive : defs.registry.virtualKind? node.type = some .primitive
    · have quiet : node.store writes = node := by
        rw [Node.store, storeAll_other]
        intro write member same
        rw [sameId] at same
        exact spares write member node (same ▸ found) primitive
      rw [Option.map_some, quiet]
      rfl
    · have same : (node.store writes).type = node.type := rfl
      simp only [Option.map_some, Option.bind_eq_bind, Option.bind_some, same, beq_iff_eq, if_neg primitive]

theorem spares_writesTo (g : Graph) (defs : Definitions) (unmixed : g.Unmixed defs) (value : Json)
    (targets : List (NodeId × Nat)) : SparesPrimitives g defs (g.writesTo defs value targets) := by
  intro write member node found primitive
  obtain ⟨target, _, made⟩ := List.mem_filterMap.1 member
  obtain ⟨index, place, rfl⟩ := Option.map_eq_some_iff.1 made
  rw [widgetIndex?, found] at place
  simp [unmixed node (List.mem_of_find?_eq_some found) primitive] at place

theorem spares_writes (g : Graph) (defs : Definitions) (unmixed : g.Unmixed defs) (order : List NodeId) :
    SparesPrimitives g defs (g.writes defs order) := by
  intro write member
  obtain ⟨id, _, inside⟩ := List.mem_flatMap.1 member
  unfold writesOf at inside
  cases found : g.primitive? defs.registry id with
  | none =>
    rw [found] at inside
    cases inside
  | some primitive =>
    rw [found] at inside
    exact spares_writesTo g defs unmixed primitive.1 primitive.2 write inside

theorem writesOf_store (writes : List WidgetWrite) (g : Graph) (defs : Definitions)
    (spares : SparesPrimitives g defs writes) (id : NodeId) :
    (g.store writes).writesOf defs id = g.writesOf defs id := by
  unfold writesOf
  rw [primitive?_store writes g defs spares]
  cases g.primitive? defs.registry id with
  | none => rfl
  | some primitive => exact writesTo_store writes g defs primitive.1 primitive.2

theorem visit_made (defs : Definitions) (pass : PrimitivePass) (id : NodeId) (distinct : pass.graph.nodeIds.Nodup) :
    pass.visit defs id = pass.made (pass.graph.writesOf defs id) := by
  unfold PrimitivePass.visit writesOf
  cases pass.graph.primitive? defs.registry id with
  | none => exact pass.made_nil.symm
  | some primitive => exact foldl_write_made defs primitive.1 primitive.2 pass distinct

theorem foldl_visit_graph (defs : Definitions) (order : List NodeId) (pass : PrimitivePass)
    (unmixed : pass.graph.Unmixed defs) (distinct : pass.graph.nodeIds.Nodup) :
    (order.foldl (PrimitivePass.visit defs) pass).graph = pass.graph.store (pass.graph.writes defs order) := by
  induction order generalizing pass with
  | nil => exact (store_nil pass.graph).symm
  | cons id rest ih =>
    have step : (pass.visit defs id).graph = pass.graph.store (pass.graph.writesOf defs id) :=
      congrArg PrimitivePass.graph (visit_made defs pass id distinct)
    have kept : (pass.visit defs id).graph.nodeIds.Nodup := by
      rw [step, nodeIds_store]
      exact distinct
    have spares : SparesPrimitives pass.graph defs (pass.graph.writesOf defs id) := by
      intro write member
      exact spares_writes pass.graph defs unmixed [id] write (List.mem_flatMap.2 ⟨id, List.mem_singleton_self id, member⟩)
    have unmixed' : (pass.visit defs id).graph.Unmixed defs := step ▸ unmixed.store _
    have later : (pass.graph.store (pass.graph.writesOf defs id)).writes defs rest = pass.graph.writes defs rest := by
      unfold writes
      congr 1
      funext other
      exact writesOf_store _ _ defs spares other
    rw [List.foldl_cons, ih _ unmixed' kept, step, later, ← store_append]
    rfl

theorem applyPrimitives_graph (g : Graph) (defs : Definitions) (unmixed : g.Unmixed defs) (distinct : g.nodeIds.Nodup)
    (order : List NodeId) : (g.applyPrimitives defs order).graph = g.store (g.writes defs order) :=
  foldl_visit_graph defs order ⟨g, 0⟩ unmixed distinct

/-! ### What a pass leaves of the nodes -/

section Blind

variable {keeps : Node → Prop} (blind : ∀ node widgets, keeps node → keeps { node with widgets := widgets })

include blind in
theorem write_forall (defs : Definitions) (value : Json) (pass : PrimitivePass) (target : NodeId × Nat)
    (before : ∀ node ∈ pass.graph.nodes, keeps node) :
    ∀ node ∈ (pass.write defs value target).graph.nodes, keeps node := by
  unfold PrimitivePass.write
  rw [writtenNode?_eq]
  cases found : pass.graph.node? target.1 with
  | none => exact before
  | some node =>
    cases pass.graph.widgetIndex? defs target with
    | none => exact before
    | some index =>
      intro other member
      obtain ⟨old, inside, rfl⟩ := List.mem_map.1 member
      by_cases here : old.id = target.1
      · rw [if_pos here]
        exact blind node _ (before node (List.mem_of_find?_eq_some found))
      · rw [if_neg here]
        exact before old inside

include blind in
theorem visit_forall (defs : Definitions) (pass : PrimitivePass) (id : NodeId)
    (before : ∀ node ∈ pass.graph.nodes, keeps node) :
    ∀ node ∈ (pass.visit defs id).graph.nodes, keeps node := by
  unfold PrimitivePass.visit
  cases pass.graph.primitive? defs.registry id with
  | none => exact before
  | some primitive =>
    exact List.foldlRecOn primitive.2 _ before fun pass kept target _ =>
      write_forall blind defs primitive.1 pass target kept

include blind in
/-- What does not depend on widgets holds of the nodes after the pass, whatever their ids. -/
theorem applyPrimitives_forall (g : Graph) (defs : Definitions) (order : List NodeId)
    (before : ∀ node ∈ g.nodes, keeps node) : ∀ node ∈ (g.applyPrimitives defs order).graph.nodes, keeps node :=
  List.foldlRecOn (motive := fun pass => ∀ node ∈ pass.graph.nodes, keeps node) order _ before fun pass kept id _ =>
    visit_forall blind defs pass id kept

end Blind

/-! ### The order -/

theorem executionOrder_congr {a b : Graph} (ids : a.nodeIds = b.nodeIds) (links : a.links = b.links) :
    a.executionOrder = b.executionOrder := by
  have size : a.nodes.length = b.nodes.length := by
    have lengths := congrArg List.length ids
    simpa only [nodeIds, List.length_map] using lengths
  have position : a.lastPosition? = b.lastPosition? := by
    funext id
    have view : ∀ g : Graph, g.lastPosition? id =
        (g.nodeIds.reverse.findIdx? (· == id)).map (g.nodes.length - 1 - ·) := by
      intro g
      rw [lastPosition?, nodeIds, ← List.map_reverse, List.findIdx?_map]
      rfl
    rw [view a, view b, ids, size]
  have edges : a.edges = b.edges := by
    rw [Graph.edges, Graph.edges, links]
    congr 1
    funext link
    rw [edge?, edge?, position]
  have read : ∀ index : Nat, a.nodes[index]?.map (·.id) = b.nodes[index]?.map (·.id) := by
    intro index
    rw [← List.getElem?_map, ← List.getElem?_map]
    exact congrArg (·[index]?) ids
  simp only [executionOrder, size, edges, read]

theorem executionOrder_store (writes : List WidgetWrite) (g : Graph) :
    (g.store writes).executionOrder = g.executionOrder :=
  executionOrder_congr (nodeIds_store writes g) rfl

end Graph

namespace Compiler

theorem resolvePrimitives_eq (g : Graph) (defs : Definitions) (apart : Graph.Apart defs)
    (distinct : g.nodeIds.Nodup) :
    resolvePrimitives g defs = g.store (g.writes defs g.executionOrder) :=
  g.applyPrimitives_graph defs (fun node _ => apart node.type) distinct g.executionOrder

theorem resolvePrimitives_again (g : Graph) (defs : Definitions) (apart : Graph.Apart defs)
    (distinct : g.nodeIds.Nodup) :
    resolvePrimitives (resolvePrimitives g defs) defs = resolvePrimitives g defs := by
  have kept : (g.store (g.writes defs g.executionOrder)).nodeIds.Nodup := by
    rw [Graph.nodeIds_store]
    exact distinct
  have same : (g.store (g.writes defs g.executionOrder)).writes defs g.executionOrder =
      g.writes defs g.executionOrder := by
    unfold Graph.writes
    congr 1
    funext id
    exact Graph.writesOf_store _ g defs (g.spares_writes defs (fun node _ => apart node.type) g.executionOrder) id
  rw [resolvePrimitives_eq g defs apart distinct, resolvePrimitives_eq _ defs apart kept,
    Graph.executionOrder_store, same, Graph.store_again]

end Compiler
end Patchbay
