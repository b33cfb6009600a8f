import Patchbay.Compiler
import Patchbay.Proofs.Group.Stages
import Patchbay.Proofs.Primitive.Pass
import Patchbay.Proofs.Sequencing.LastNode

/-!
Graphs that come back from a document as they were written to it. Nodes may share an id, as long as they are one
and the same; every graph that a compile comes by is of this kind.
-/
set_option autoImplicit false

namespace Patchbay

/-- Nodes that share an id are the same. -/
def OnePerId (nodes : List Node) : Prop := ∀ a ∈ nodes, ∀ b ∈ nodes, a.id = b.id → a = b

section OnePerId

variable {nodes : List Node}

theorem OnePerId.map (single : OnePerId nodes) (change : Node → Node)
    (sameId : ∀ node ∈ nodes, (change node).id = node.id) : OnePerId (nodes.map change) := by
  intro a memberA b memberB same
  obtain ⟨oldA, insideA, rfl⟩ := List.mem_map.1 memberA
  obtain ⟨oldB, insideB, rfl⟩ := List.mem_map.1 memberB
  rw [sameId oldA insideA, sameId oldB insideB] at same
  rw [single oldA insideA oldB insideB same]

theorem OnePerId.subset (single : OnePerId nodes) {fewer : List Node} (less : fewer ⊆ nodes) : OnePerId fewer :=
  fun a memberA b memberB => single a (less memberA) b (less memberB)

end OnePerId

namespace Graph

-- What is overwritten last is what stays.
theorem foldl_overwrite (new nodes : List Node) : new.foldl (fun all node => overwrite node all) nodes =
    nodes.map fun node => (findLast? new node.id).getD node := by
  induction new generalizing nodes with
  | nil => exact (List.map_id nodes).symm
  | cons node rest ih =>
    rw [List.foldl_cons, ih, overwrite, List.map_map]
    apply List.map_congr_left
    intro old _
    rw [Function.comp, findLast?_cons]
    by_cases same : old.id = node.id
    · rw [if_pos same, if_pos same.symm, same]
      cases findLast? rest node.id <;> rfl
    · rw [if_neg same, if_neg (Ne.symm same), Option.or_none]

theorem onePerId_foldl_overwrite (new nodes : List Node)
    (others : ∀ a ∈ nodes, ∀ b ∈ nodes, a.id = b.id → findLast? new a.id = none → a = b) :
    OnePerId (new.foldl (fun all node => overwrite node all) nodes) := by
  have kept : ∀ node : Node, ((findLast? new node.id).getD node).id = node.id := by
    intro node
    cases found : findLast? new node.id with
    | none => rfl
    | some last => exact id_of_findLast? found
  rw [foldl_overwrite]
  intro a memberA b memberB same
  obtain ⟨oldA, insideA, rfl⟩ := List.mem_map.1 memberA
  obtain ⟨oldB, insideB, rfl⟩ := List.mem_map.1 memberB
  rw [kept, kept] at same
  cases found : findLast? new oldA.id with
  | none => rw [← same, found, Option.getD_none, Option.getD_none, others oldA insideA oldB insideB same found]
  | some last => rw [← same, found, Option.getD_some, Option.getD_some]

/-- Nodes that share an id are the same, and no two links share one. -/
structure Keyed (g : Graph) : Prop where
  nodes : OnePerId g.nodes
  links : (g.links.map (·.id)).Nodup

theorem exists_findLast? {nodes : List Node} {node : Node} (member : node ∈ nodes) :
    ∃ last, findLast? nodes node.id = some last := by
  refine Option.isSome_iff_exists.1 ((findLast?_isSome_iff nodes node.id).2 ?_)
  exact List.any_eq_true.2 ⟨node, member, beq_self_eq_true _⟩

theorem keyed_ofDocument (doc : Document) : (ofDocument doc).Keyed where
  nodes := by
    refine onePerId_foldl_overwrite doc.nodes doc.nodes fun a member _ _ _ none => ?_
    obtain ⟨last, found⟩ := exists_findLast? member
    rw [none] at found
    cases found
  links := by
    have kept : ∀ links done : List Link, (done.map (·.id)).Nodup →
        ((links.foldl (fun links link => putLink link links) done).map (·.id)).Nodup := by
      intro links
      induction links with
      | nil => exact fun _ distinct => distinct
      | cons link rest ih => exact fun done distinct => ih _ (putLink_distinct link done distinct)
    exact kept doc.links [] List.nodup_nil

section Keyed

variable {g : Graph} (keyed : g.Keyed)

include keyed in
/-- Written to a document and loaded again, the graph is as it was, but for the id of the next link. -/
theorem Keyed.ofDocument_toDocument (template : Document) : ofDocument (g.toDocument template) =
    { g with nextLinkId := (g.toDocument template).nextLinkId } := by
  have nodes : g.nodes.foldl (fun nodes node => overwrite node nodes) g.nodes = g.nodes := by
    rw [foldl_overwrite]
    refine (List.map_congr_left fun node member => ?_).trans (List.map_id g.nodes)
    obtain ⟨last, found⟩ := exists_findLast? member
    rw [found, Option.getD_some]
    exact keyed.nodes last (mem_of_findLast? found) node member (id_of_findLast? found)
  have links : g.links.foldl (fun links link => putLink link links) [] = g.links :=
    foldl_putLink_of_distinct g.links [] keyed.links
  rw [ofDocument, toDocument, nodes, links]

include keyed in
theorem Keyed.rewire (link : Link) (input : InputSlot → InputSlot) (output : OutputSlot → OutputSlot) :
    (g.rewire link input output).Keyed :=
  ⟨keyed.nodes.map _ fun _ _ => rfl, keyed.links⟩

include keyed in
theorem Keyed.release (id : LinkId) : (g.release id).Keyed := by
  rw [Graph.release]
  cases g.link? id with
  | none => exact keyed
  | some previous =>
    simp only [detach_eq]
    exact keyed.rewire previous _ _

include keyed in
theorem Keyed.insertLink (link : Link) : (g.insertLink link).Keyed := by
  rw [insertLink_eq]
  exact ⟨((keyed.release link.id).rewire link _ _).nodes, putLink_distinct link g.links keyed.links⟩

include keyed in
theorem Keyed.removeLink (id : LinkId) : (g.removeLink id).Keyed := by
  rw [removeLink_eq]
  exact ⟨(keyed.release id).nodes, keyed.links.sublist (List.filter_sublist.map _)⟩

include keyed in
theorem Keyed.removeNode (id : NodeId) : (g.removeNode id).Keyed := by
  have cleared : (((g.links.filter (touches id)).map (·.id)).foldl Graph.removeLink g).Keyed :=
    List.foldlRecOn _ _ keyed fun _ kept link _ => kept.removeLink link
  exact ⟨cleared.nodes.subset (List.filter_subset_self _), cleared.links⟩

include keyed in
theorem Keyed.insertNodes (position : Nat) (new : List Node) : (g.insertNodes position new).Keyed where
  nodes := by
    refine onePerId_foldl_overwrite new _ fun a memberA b memberB same absent => ?_
    have old : ∀ node ∈ g.nodes.take position ++ new ++ g.nodes.drop position, findLast? new node.id = none →
        node ∈ g.nodes := by
      intro node member none
      rcases List.mem_append.1 member with front | behind
      · rcases List.mem_append.1 front with before | inserted
        · exact List.mem_of_mem_take before
        · obtain ⟨last, found⟩ := exists_findLast? inserted
          rw [none] at found
          cases found
      · exact List.mem_of_mem_drop behind
    exact keyed.nodes a (old a memberA absent) b (old b memberB (same ▸ absent)) same
  links := keyed.links

include keyed in
theorem Keyed.modifyNode {id : NodeId} {node : Node} (sameId : node.id = id) :
    (g.modifyNode id fun _ => node).Keyed := by
  refine ⟨keyed.nodes.map _ fun old _ => ?_, keyed.links⟩
  by_cases here : old.id = id
  · rw [if_pos here, here, sameId]
  · rw [if_neg here]

end Keyed

/-! ### Primitives -/

theorem Keyed.write {pass : PrimitivePass} (keyed : pass.graph.Keyed) (defs : Definitions) (value : Json)
    (target : NodeId × Nat) : (pass.write defs value target).graph.Keyed := by
  rw [PrimitivePass.write, writtenNode?_eq]
  cases found : pass.graph.node? target.1 with
  | none => exact keyed
  | some node =>
    cases pass.graph.widgetIndex? defs target with
    | none => exact keyed
    | some index =>
      have sameId : node.id = target.1 := id_of_node? found
      exact keyed.modifyNode sameId

theorem Keyed.visit {pass : PrimitivePass} (keyed : pass.graph.Keyed) (defs : Definitions) (id : NodeId) :
    (pass.visit defs id).graph.Keyed := by
  rw [PrimitivePass.visit]
  cases pass.graph.primitive? defs.registry id with
  | none => exact keyed
  | some primitive =>
    exact List.foldlRecOn (motive := fun pass : PrimitivePass => pass.graph.Keyed) _ _ keyed
      fun _ kept target _ => kept.write defs primitive.1 target

theorem Keyed.resolvePrimitives {g : Graph} (keyed : g.Keyed) (defs : Definitions) :
    (Compiler.resolvePrimitives g defs).Keyed :=
  List.foldlRecOn (motive := fun pass : PrimitivePass => pass.graph.Keyed) _ _ keyed fun _ kept id _ => kept.visit defs id

/-! ### Groups -/

section Expansion

variable {g : Graph} (keyed : g.Keyed) (defs : Definitions)

include keyed in
theorem Keyed.addInnerLink (config : GroupConfig) (place : NodeId) (inner : GroupLink) :
    (Graph.addInnerLink defs config place g inner).Keyed := by
  have allocated : g.allocate.2.Keyed := ⟨keyed.nodes, keyed.links⟩
  obtain ⟨origin, slot, type, added⟩ := addInnerLink_eq defs config place g inner
  rw [added]
  by_cases joined : defs.joins config inner
  · rw [if_pos joined]
    exact allocated.insertLink _
  · rw [if_neg joined]
    exact keyed

include keyed in
theorem Keyed.reroute (change : LinkId × (Link → Option Link)) : (g.reroute change).Keyed := by
  rw [Graph.reroute]
  cases g.link? change.1 with
  | none => exact keyed
  | some link =>
    cases result : change.2 link with
    | none =>
      simp only [result]
      exact keyed.removeLink change.1
    | some moved =>
      simp only [result]
      exact keyed.insertLink moved

include keyed in
theorem Keyed.moveInput (group : GroupDef) (place : NodeId) (entry : InputSlot × Nat) :
    (Graph.moveInput defs group place g entry).Keyed := by
  rw [moveInput_eq]
  exact List.foldlRecOn _ _ keyed fun _ kept id _ => kept.reroute _

include keyed in
theorem Keyed.moveOrigin (producer : Option Producer) (id : LinkId) : (Graph.moveOrigin producer g id).Keyed := by
  rw [moveOrigin_eq]
  exact keyed.reroute _

include keyed in
theorem Keyed.expandInstance (place : Node) (group : GroupDef) : (g.expandInstance defs place group).Keyed := by
  have placed := keyed.insertNodes ((g.position? place.id).getD g.nodes.length) (group.placedMembers defs place)
  have linked := List.foldlRecOn group.config.links (Graph.addInnerLink defs group.config place.id) placed
    fun _ kept inner _ => kept.addInnerLink defs group.config place.id inner
  have fed := List.foldlRecOn (place.inputs.drop place.flowInputCount).zipIdx (Graph.moveInput defs group place.id)
    linked fun _ kept entry _ => kept.moveInput defs group place.id entry
  have drained := List.foldlRecOn (place.outputs.drop place.flowOutputCount).zipIdx
    (Graph.moveOutput defs group place.id) fed fun _ kept entry _ =>
      List.foldlRecOn entry.1.linkIds _ kept fun _ kept id _ => kept.moveOrigin _ id
  exact drained.removeNode place.id

end Expansion

theorem Keyed.expandQueue (defs : Definitions) (state : ExpansionState) (queue : List PendingInstance)
    (keyed : state.graph.Keyed) : (Patchbay.expandQueue defs state queue).graph.Keyed := by
  fun_induction Patchbay.expandQueue defs state queue with
  | case1 state => exact keyed
  | case2 state entry queue kept ih => exact ih keyed
  | case3 state entry queue node group found graph ih => exact ih (keyed.expandInstance defs node group)

end Graph

namespace Compiler

/-- Whatever document is compiled, the graph of its draft can be written and loaded. -/
theorem keyed_draft {p : Prepared} {d : Draft} (drafted : draft p = .ok d) : d.expansion.graph.Keyed := by
  have resolved := (Graph.keyed_ofDocument p.runtime).resolvePrimitives p.definitions
  simp only [draft] at drafted
  split at drafted
  · cases drafted
  · cases drafted
    have expanded := fun queue => Graph.Keyed.expandQueue p.definitions ⟨_, p.missing, 0⟩ queue resolved
    split
    · exact (expanded _).resolvePrimitives p.definitions
    · exact expanded _

end Compiler

/-! ### What does not depend on the next link id -/

namespace Graph

section Congruence

variable {a b : Graph} (node : a.node? = b.node?) (incoming : a.incoming? = b.incoming?)

include node incoming in
-- A walk reads nothing of the graph but its nodes and what feeds them.
theorem follow_congr (r : Registry) (type : String) (unvisited : List NodeId) (link : Link) :
    a.follow r type unvisited link = b.follow r type unvisited link := by
  fun_induction follow a r type unvisited link with
  | case1 unvisited link absent => rw [follow, ← node, absent]
  | case2 unvisited link origin found unseen normal => rw [follow, ← node]; simp only [found, unseen, normal, if_true]
  | case3 unvisited link origin found unseen muted => rw [follow, ← node]; simp only [found, unseen, muted, if_true]
  | case4 unvisited link origin found unseen virtual next fed ih =>
    rw [follow.eq_def b, ← node, ← incoming]
    simp only [found, unseen, virtual, fed, if_true]
    exact ih
  | case5 unvisited link origin found unseen virtual unfed =>
    rw [follow.eq_def b, ← node, ← incoming]
    simp only [found, unseen, virtual, unfed, if_true]
  | case6 unvisited link origin found unseen bypassed next fed ih =>
    rw [follow.eq_def b, ← node, ← incoming]
    simp only [found, unseen, bypassed, fed, if_true]
    exact ih
  | case7 unvisited link origin found unseen bypassed unfed =>
    rw [follow.eq_def b, ← node, ← incoming]
    simp only [found, unseen, bypassed, unfed, if_true]
  | case8 unvisited link origin found seen => rw [follow, ← node]; simp only [found, seen, if_false]

end Congruence

theorem serialize_congr {a b : Graph} (nodes : a.nodes = b.nodes) (links : a.links = b.links) (defs : Definitions)
    (order : List NodeId) : a.serialize defs order = b.serialize defs order := by
  have node : a.node? = b.node? := by
    funext id
    rw [node?, node?, nodes]
  have incoming : a.incoming? = b.incoming? := by
    funext id slot
    have link : a.link? = b.link? := by
      funext id
      rw [link?, link?, links]
    rw [incoming?, incoming?, node, link]
  have ids : a.nodeIds = b.nodeIds := by rw [nodeIds, nodeIds, nodes]
  have resolve : ∀ r id slot, a.resolveInput r id slot = b.resolveInput r id slot := by
    intro r id slot
    simp only [resolveInput, node, incoming, ids, follow_congr node incoming]
  have input : ∀ r node i entry, a.linkInput r node i entry = b.linkInput r node i entry := by
    intro r target i entry
    simp only [linkInput, resolve, node]
  have instruction : ∀ node, a.instruction defs node = b.instruction defs node := by
    intro target
    simp only [Graph.instruction]
    congr 1
    funext i entry
    exact input defs.registry target i entry
  have added : a.addInstruction defs = b.addInstruction defs := by
    funext prompt id
    simp only [addInstruction, node, instruction]
  rw [serialize, serialize, added]

end Graph
end Patchbay
