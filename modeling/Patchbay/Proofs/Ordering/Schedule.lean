import Patchbay.Graph.Schedule
import Patchbay.Proofs.Ordering.Placing

/-!
The order in which a graph is run, as a placing of its nodes. The counters of the pass say of every position
how many links come into it from nodes that are still to be placed.
-/
set_option autoImplicit false

namespace Patchbay

/-! ### The counters -/

namespace Pending

theorem length_ofEdges (size : Nat) (edges : List Edge) : (ofEdges size edges).length = size := by
  rw [ofEdges, List.length_map, List.length_range]

theorem getElem?_ofEdges {size i : Nat} (edges : List Edge) (inside : i < size) :
    (ofEdges size edges)[i]? = some ((edges.countP (·.target == i) : Nat) : Int) := by
  rw [ofEdges, List.getElem?_map, List.getElem?_range inside]
  rfl

theorem length_place (pending : Pending) (edges : List Edge) (index : Nat) :
    (pending.place edges index).length = pending.length := by
  refine List.foldlRecOn (motive := fun after : Pending => after.length = pending.length) _ _ rfl ?_
  intro after same edge _
  rw [List.length_modify, same]

-- The counters after some of the links that lead on.
def lower (pending : Pending) (edges : List Edge) : Pending :=
  edges.foldl (fun pending edge => pending.modify edge.target (· - 1)) pending

theorem getElem?_lower (pending : Pending) (edges : List Edge) (i : Nat) :
    (pending.lower edges)[i]? = pending[i]?.map (· - ((edges.countP (·.target == i) : Nat) : Int)) := by
  unfold lower
  induction edges generalizing pending with
  | nil => simp
  | cons edge rest ih =>
    rw [List.foldl_cons, ih, List.getElem?_modify, List.countP_cons]
    by_cases enters : edge.target = i
    · cases pending[i]? with
      | none => simp [enters]
      | some count =>
        simp only [enters, if_true, Option.map_eq_map, Option.map_some, BEq.rfl]
        congr 1
        omega
    · cases pending[i]? <;> simp [enters]

theorem getElem?_place (pending : Pending) (edges : List Edge) (index i : Nat) :
    (pending.place edges index)[i]? =
      pending[i]?.map (· - ((edges.countP fun edge => edge.origin == index && edge.target == i : Nat) : Int)) := by
  have count : (edges.filter (·.origin == index)).countP (·.target == i) =
      edges.countP fun edge => edge.origin == index && edge.target == i := by
    rw [List.countP_filter]
    exact List.countP_congr fun edge _ => by rw [Bool.and_comm]
  rw [← count]
  exact pending.getElem?_lower (edges.filter (·.origin == index)) i

-- Of all links into a position, those are counted that come from positions still to be placed.
def Counts (pending : Pending) (edges : List Edge) (unplaced : List Nat) : Prop :=
  ∀ i, i < pending.length →
    pending[i]? = some ((edges.countP fun edge => unplaced.contains edge.origin && edge.target == i : Nat) : Int)

theorem counts_ofEdges {size : Nat} {edges : List Edge} (inside : ∀ edge ∈ edges, edge.origin < size) :
    (ofEdges size edges).Counts edges (List.range size) := by
  intro i below
  rw [length_ofEdges] at below
  rw [getElem?_ofEdges edges below]
  congr 2
  apply List.countP_congr
  intro edge member
  simp [inside edge member]

theorem countP_dropIndex (edges : List Edge) {unplaced : List Nat} {index : Nat} (member : index ∈ unplaced) (i : Nat) :
    (edges.countP fun edge => unplaced.contains edge.origin && edge.target == i) =
      (edges.countP fun edge => edge.origin == index && edge.target == i) +
        edges.countP fun edge => (dropIndex index unplaced).contains edge.origin && edge.target == i := by
  induction edges with
  | nil => rfl
  | cons edge rest ih =>
    rw [List.countP_cons, List.countP_cons, List.countP_cons, ih]
    by_cases leaves : edge.origin = index
    · have dropped : index ∉ dropIndex index unplaced := by simp [dropIndex]
      simp only [leaves, List.contains_eq_mem, member, dropped, decide_true, decide_false, BEq.rfl, Bool.true_and,
        Bool.false_and, Bool.false_eq_true, if_false]
      omega
    · have kept : edge.origin ∈ dropIndex index unplaced ↔ edge.origin ∈ unplaced := by simp [dropIndex, leaves]
      have other : (edge.origin == index) = false := by simpa using leaves
      simp only [List.contains_eq_mem, kept, other, Bool.false_and, Bool.false_eq_true, if_false]
      omega

theorem Counts.place {pending : Pending} {edges : List Edge} {unplaced : List Nat}
    (counts : pending.Counts edges unplaced) {index : Nat} (member : index ∈ unplaced) :
    (pending.place edges index).Counts edges (dropIndex index unplaced) := by
  intro i below
  rw [length_place] at below
  rw [getElem?_place, counts i below, Option.map_some, countP_dropIndex edges member i]
  congr 1
  omega

theorem isReady_iff {pending : Pending} {edges : List Edge} {unplaced : List Nat}
    (counts : pending.Counts edges unplaced) {i : Nat} (below : i < pending.length) :
    pending.isReady i = true ↔ ∀ origin ∈ unplaced, Edge.mk origin i ∉ edges := by
  rw [isReady, counts i below, beq_iff_eq, Option.some.injEq, Int.natCast_eq_zero, List.countP_eq_zero]
  constructor
  · intro none origin member edge
    exact none _ edge (by simp [member])
  · intro none edge member feeds
    simp only [Bool.and_eq_true, List.contains_iff_mem, beq_iff_eq] at feeds
    exact none edge.origin feeds.1 (feeds.2 ▸ member)

end Pending

theorem schedule_placing (edges : List Edge) (pending : Pending) (unplaced : List Nat)
    (counts : pending.Counts edges unplaced) (inside : ∀ i ∈ unplaced, i < pending.length) :
    Placing (fun origin target => Edge.mk origin target ∈ edges) unplaced (schedule edges pending unplaced) := by
  fun_induction schedule edges pending unplaced with
  | case1 pending unplaced none =>
    refine .stuck unplaced fun i member => ?_
    have waits := List.find?_eq_none.1 none i member
    rw [Pending.isReady_iff counts (inside i member)] at waits
    simpa using waits
  | case2 pending unplaced index found ih =>
    have member := List.mem_of_find?_eq_some found
    refine .place index member ((Pending.isReady_iff counts (inside index member)).1 (List.find?_some found)) ?_
    refine ih (counts.place member) fun i left => ?_
    rw [Pending.length_place]
    exact inside i (List.mem_filter.1 left).1

/-! ### The nodes -/

namespace Graph

-- A link between two nodes of the graph.
def Precedes (g : Graph) (a b : NodeId) : Prop :=
  ∃ link ∈ g.links, link.origin = a ∧ link.target = b ∧ a ∈ g.nodeIds ∧ b ∈ g.nodeIds

theorem getElem?_lastPosition? {g : Graph} {id : NodeId} {i : Nat} (found : g.lastPosition? id = some i) :
    g.nodeIds[i]? = some id := by
  obtain ⟨j, place, rfl⟩ := Option.map_eq_some_iff.1 found
  obtain ⟨below, same, _⟩ := List.findIdx?_eq_some_iff_getElem.1 place
  rw [List.length_reverse] at below
  rw [List.getElem_reverse, beq_iff_eq] at same
  rw [nodeIds, List.getElem?_map, List.getElem?_eq_getElem (by omega), Option.map_some, same]

theorem exists_lastPosition? {g : Graph} {id : NodeId} (member : id ∈ g.nodeIds) :
    ∃ i, g.lastPosition? id = some i := by
  obtain ⟨node, inside, rfl⟩ := List.mem_map.1 member
  rw [← Option.isSome_iff_exists, lastPosition?, Option.isSome_map, List.findIdx?_isSome, List.any_eq_true]
  exact ⟨node, List.mem_reverse.2 inside, beq_self_eq_true _⟩

theorem lastPosition?_eq_some_iff {g : Graph} (distinct : g.nodeIds.Nodup) (id : NodeId) (i : Nat) :
    g.lastPosition? id = some i ↔ g.nodeIds[i]? = some id := by
  refine ⟨getElem?_lastPosition?, fun place => ?_⟩
  obtain ⟨j, found⟩ := exists_lastPosition? (List.mem_of_getElem? place)
  have same : g.nodeIds[j]? = g.nodeIds[i]? := (getElem?_lastPosition? found).trans place.symm
  have below : j < g.nodeIds.length := (List.getElem?_eq_some_iff.1 (getElem?_lastPosition? found)).1
  rw [found, (List.getElem?_inj below distinct).1 same]

theorem mem_edges_iff {g : Graph} (distinct : g.nodeIds.Nodup) (i j : Nat) : Edge.mk i j ∈ g.edges ↔
    ∃ link ∈ g.links, g.nodeIds[i]? = some link.origin ∧ g.nodeIds[j]? = some link.target := by
  have each : ∀ link : Link, g.edge? link = some ⟨i, j⟩ ↔
      g.nodeIds[i]? = some link.origin ∧ g.nodeIds[j]? = some link.target := by
    intro link
    rw [← lastPosition?_eq_some_iff distinct, ← lastPosition?_eq_some_iff distinct, edge?]
    cases g.lastPosition? link.origin <;> cases g.lastPosition? link.target <;> simp
  simp only [edges, List.mem_filterMap, each]

-- The pass runs over positions. Each one stands for one node, as the ids are distinct.
def nameAt (g : Graph) (index : Nat) : NodeId := (g.nodeIds[index]?).getD (.number 0)

theorem getElem?_nodeIds {g : Graph} {index : Nat} (below : index < g.nodes.length) :
    g.nodeIds[index]? = some (g.nameAt index) := by
  have inside : index < g.nodeIds.length := by
    rw [nodeIds, List.length_map]
    exact below
  rw [nameAt, List.getElem?_eq_getElem inside, Option.getD_some]

theorem map_nameAt_range (g : Graph) : (List.range g.nodes.length).map g.nameAt = g.nodeIds := by
  have size : g.nodeIds.length = g.nodes.length := List.length_map _
  apply List.ext_getElem?
  intro index
  by_cases below : index < g.nodes.length
  · rw [List.getElem?_map, List.getElem?_range below, getElem?_nodeIds below, Option.map_some]
  · rw [List.getElem?_eq_none (by simpa using below), List.getElem?_eq_none (by omega)]

theorem nameAt_inj {g : Graph} (distinct : g.nodeIds.Nodup) {i j : Nat} (belowI : i < g.nodes.length)
    (belowJ : j < g.nodes.length) (same : g.nameAt i = g.nameAt j) : i = j := by
  have size : g.nodeIds.length = g.nodes.length := List.length_map _
  have places : g.nodeIds[i]? = g.nodeIds[j]? := by
    rw [getElem?_nodeIds belowI, getElem?_nodeIds belowJ, same]
  exact (List.getElem?_inj (size ▸ belowI) distinct).1 places

theorem mem_edges_iff_precedes {g : Graph} (distinct : g.nodeIds.Nodup) {i j : Nat} (belowI : i < g.nodes.length)
    (belowJ : j < g.nodes.length) : Edge.mk i j ∈ g.edges ↔ g.Precedes (g.nameAt i) (g.nameAt j) := by
  have placeI := getElem?_nodeIds belowI
  have placeJ := getElem?_nodeIds belowJ
  rw [mem_edges_iff distinct, placeI, placeJ]
  constructor
  · intro ⟨link, member, origin, target⟩
    have origin := Option.some.inj origin
    have target := Option.some.inj target
    exact ⟨link, member, origin.symm, target.symm, List.mem_of_getElem? placeI, List.mem_of_getElem? placeJ⟩
  · intro ⟨link, member, origin, target, _⟩
    exact ⟨link, member, congrArg some origin.symm, congrArg some target.symm⟩

theorem lt_of_lastPosition? {g : Graph} {id : NodeId} {i : Nat} (found : g.lastPosition? id = some i) :
    i < g.nodes.length := by
  have inside := (List.getElem?_eq_some_iff.1 (getElem?_lastPosition? found)).1
  rwa [nodeIds, List.length_map] at inside

theorem lt_of_mem_edges {g : Graph} {edge : Edge} (member : edge ∈ g.edges) :
    edge.origin < g.nodes.length ∧ edge.target < g.nodes.length := by
  obtain ⟨link, _, found⟩ := List.mem_filterMap.1 member
  obtain ⟨origin, leaves, found⟩ := Option.bind_eq_some_iff.1 found
  obtain ⟨target, enters, found⟩ := Option.bind_eq_some_iff.1 found
  cases found
  exact ⟨lt_of_lastPosition? leaves, lt_of_lastPosition? enters⟩

theorem counts_edges (g : Graph) :
    (Pending.ofEdges g.nodes.length g.edges).Counts g.edges (List.range g.nodes.length) :=
  Pending.counts_ofEdges fun _ member => (lt_of_mem_edges member).1

theorem positions_placing (g : Graph) :
    Placing (fun i j => Edge.mk i j ∈ g.edges) (List.range g.nodes.length)
      (schedule g.edges (.ofEdges g.nodes.length g.edges) (List.range g.nodes.length)) := by
  refine schedule_placing _ _ _ g.counts_edges fun i member => ?_
  rw [Pending.length_ofEdges]
  exact List.mem_range.1 member

theorem executionOrder_eq (g : Graph) : g.executionOrder =
    (schedule g.edges (.ofEdges g.nodes.length g.edges) (List.range g.nodes.length)).map g.nameAt := by
  apply List.filterMap_eq_map_iff_forall_eq_some.2
  intro index member
  rw [← List.getElem?_map]
  have inside := (g.positions_placing.perm List.nodup_range).subset member
  exact getElem?_nodeIds (List.mem_range.1 inside)

/-- The planner places every node once, none before a node that a link leads from, unless there is no other. -/
theorem executionOrder_placing (g : Graph) (distinct : g.nodeIds.Nodup) :
    Placing g.Precedes g.nodeIds g.executionOrder := by
  have named : Placing g.Precedes _ _ := g.positions_placing.map g.nameAt
    (fun i insideI j insideJ => nameAt_inj distinct (List.mem_range.1 insideI) (List.mem_range.1 insideJ))
    fun i insideI j insideJ => mem_edges_iff_precedes distinct (List.mem_range.1 insideI) (List.mem_range.1 insideJ)
  rwa [map_nameAt_range, ← g.executionOrder_eq] at named

end Graph
end Patchbay
