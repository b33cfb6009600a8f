import Patchbay.Proofs.Ordering.Greedy

/-!
The planning pass with a heap. Only positions whose counter has just come to zero are put on it, and the first of them is
taken off. The loop gives up where a counter would fall below zero, and it never does.
-/
set_option autoImplicit false

namespace Patchbay

/-! ### The loop -/

-- One producer less to wait for, if there is one.
def lower? (degrees : List Nat) (target : Nat) : Option (List Nat) :=
  match degrees[target]? with
  | some (left + 1) => some (degrees.set target left)
  | _ => none

-- A position that waits for nothing any more comes onto the heap.
def push (degrees ready : List Nat) (target : Nat) : List Nat :=
  if degrees[target]? = some 0 then target :: ready else ready

def release? : List Nat → List Nat → List Nat → Option (List Nat × List Nat)
  | [], degrees, ready => some (degrees, ready)
  | target :: rest, degrees, ready => do
    let degrees ← lower? degrees target
    release? rest degrees (push degrees ready target)

def targetsFrom (edges : List Edge) (index : Nat) : List Nat := (edges.filter (·.origin == index)).map (·.target)

-- How many links are still to be taken off.
def outstanding (degrees : List Nat) : Nat := degrees.foldr (· + ·) 0

theorem outstanding_set {degrees : List Nat} {i left : Nat} (place : degrees[i]? = some (left + 1)) :
    outstanding (degrees.set i left) + 1 = outstanding degrees := by
  induction degrees generalizing i with
  | nil => simp at place
  | cons head rest ih =>
    cases i with
    | zero =>
      cases place
      simp only [outstanding, List.set_cons_zero, List.foldr_cons]
      omega
    | succ i =>
      have later : outstanding (rest.set i left) + 1 = outstanding rest := ih (by simpa using place)
      simp only [outstanding, List.set_cons_succ, List.foldr_cons] at later ⊢
      omega

-- A position comes onto the heap at the cost of a link.
theorem release?_work {targets degrees ready degrees' ready' : List Nat}
    (released : release? targets degrees ready = some (degrees', ready')) :
    outstanding degrees' + ready'.length ≤ outstanding degrees + ready.length := by
  induction targets generalizing degrees ready with
  | nil =>
    cases released
    exact Nat.le_refl _
  | cons target rest ih =>
    obtain ⟨lowered, once, later⟩ := Option.bind_eq_some_iff.1 released
    have fewer : outstanding lowered + 1 = outstanding degrees := by
      rw [lower?] at once
      split at once
      · rename_i left place
        cases once
        exact outstanding_set place
      · cases once
    have pushed : (push lowered ready target).length ≤ ready.length + 1 := by
      rw [push]
      split <;> simp
    have after := ih later
    omega

-- Of the heap only its members count; the least one is taken off.
def drain? (edges : List Edge) (degrees ready placed : List Nat) : Option (List Nat) :=
  match _next : ready.min? with
  | none => some placed
  | some index =>
    match _released : release? (targetsFrom edges index) degrees (ready.erase index) with
    | none => none
    | some (degrees', ready') => drain? edges degrees' ready' (placed ++ [index])
termination_by outstanding degrees + ready.length
decreasing_by
  have member := (List.min?_eq_some_iff.1 _next).1
  have shorter := List.length_erase_of_mem member
  have some := List.length_pos_of_mem member
  have work := release?_work _released
  omega

/-! ### One turn -/

theorem lower?_eq_some {degrees : List Nat} {target left : Nat} (place : degrees[target]? = some (left + 1)) :
    lower? degrees target = some (degrees.set target left) ∧
      ∀ i, (degrees.set target left)[i]? = if i = target then some left else degrees[i]? := by
  refine ⟨by simp [lower?, place], fun i => ?_⟩
  by_cases here : i = target
  · subst here
    simp [(List.getElem?_eq_some_iff.1 place).1]
  · simp [here, Ne.symm here]

theorem mem_push (degrees ready : List Nat) (target i : Nat) :
    i ∈ push degrees ready target ↔ i ∈ ready ∨ (i = target ∧ degrees[i]? = some 0) := by
  rw [push]
  by_cases zero : degrees[target]? = some 0
  · rw [if_pos zero, List.mem_cons, or_comm]
    exact or_congr_right ⟨fun here => ⟨here, here ▸ zero⟩, And.left⟩
  · rw [if_neg zero]
    refine ⟨.inl, fun either => either.resolve_right ?_⟩
    rintro ⟨rfl, none⟩
    exact zero none

theorem nodup_push {degrees ready : List Nat} {target : Nat} (distinct : ready.Nodup) (waits : target ∉ ready) :
    (push degrees ready target).Nodup := by
  rw [push]
  split
  · exact List.nodup_cons.2 ⟨waits, distinct⟩
  · exact distinct

-- The counters suffice for the links, and nothing on the heap waits for any of them.
theorem exists_release? {targets degrees ready : List Nat}
    (enough : ∀ i ∈ targets, ∃ count, degrees[i]? = some count ∧ targets.count i ≤ count)
    (zero : ∀ i ∈ ready, degrees[i]? = some 0) (distinct : ready.Nodup) :
    ∃ degrees' ready', release? targets degrees ready = some (degrees', ready') ∧
      (∀ i, degrees'[i]? = degrees[i]?.map (· - targets.count i)) ∧ ready'.Nodup ∧
        ∀ i, i ∈ ready' ↔ i ∈ ready ∨ (i ∈ targets ∧ degrees'[i]? = some 0) := by
  induction targets generalizing degrees ready with
  | nil => exact ⟨degrees, ready, rfl, by simp, distinct, by simp⟩
  | cons target rest ih =>
    obtain ⟨count, place, bound⟩ := enough target List.mem_cons_self
    rw [List.count_cons_self] at bound
    obtain ⟨left, rfl⟩ : ∃ left, count = left + 1 := ⟨count - 1, by omega⟩
    obtain ⟨lowered, values⟩ := lower?_eq_some place
    generalize degrees.set target left = degrees₁ at lowered values
    have waits : target ∉ ready := fun member => by simpa [place] using zero target member
    have enough₁ : ∀ i ∈ rest, ∃ count, degrees₁[i]? = some count ∧ rest.count i ≤ count := by
      intro i member
      by_cases here : i = target
      · subst here
        exact ⟨left, by simp [values], by omega⟩
      · obtain ⟨other, there, most⟩ := enough i (List.mem_cons_of_mem _ member)
        rw [List.count_cons_of_ne (Ne.symm here)] at most
        exact ⟨other, by simp [values, here, there], most⟩
    have zero₁ : ∀ i ∈ push degrees₁ ready target, degrees₁[i]? = some 0 := by
      intro i member
      rcases (mem_push degrees₁ ready target i).1 member with before | ⟨_, now⟩
      · have apart : i ≠ target := fun same => waits (same ▸ before)
        rw [values, if_neg apart, zero i before]
      · exact now
    obtain ⟨degrees', ready', released, counted, distinct', members⟩ := ih enough₁ zero₁ (nodup_push distinct waits)
    refine ⟨degrees', ready', by simp [release?, lowered, released], fun i => ?_, distinct', fun i => ?_⟩
    · rw [counted, values]
      by_cases here : i = target
      · subst here
        simp [place]
      · rw [if_neg here, List.count_cons_of_ne (Ne.symm here)]
    · rw [members, mem_push, List.mem_cons, or_and_right, or_assoc]
      refine or_congr_right (or_congr_left' fun later => and_congr_right fun _ => ?_)
      by_cases again : i ∈ rest
      · have positive : degrees'[i]? ≠ some 0 := fun zero => later ⟨again, zero⟩
        refine iff_of_false (fun zero => positive ?_) positive
        simp [counted, zero]
      · simp [counted, List.count_eq_zero.2 again]

-- The least of the ready positions is the first one.
theorem min?_eq_find? {all ready : List Nat} {p : Nat → Bool} (ascending : all.Pairwise (· < ·))
    (same : ∀ i, i ∈ ready ↔ i ∈ all ∧ p i) : ready.min? = all.find? p := by
  cases found : all.find? p with
  | none =>
    rw [List.min?_eq_none_iff, List.eq_nil_iff_forall_not_mem]
    intro i member
    obtain ⟨inside, here⟩ := (same i).1 member
    exact List.find?_eq_none.1 found i inside here
  | some index =>
    obtain ⟨here, before, after, split, none⟩ := List.find?_eq_some_iff_append.1 found
    subst split
    rw [List.pairwise_append] at ascending
    refine List.min?_eq_some_iff.2 ⟨(same index).2 ⟨by simp, here⟩, fun i member => ?_⟩
    obtain ⟨inside, ready⟩ := (same i).1 member
    rcases List.mem_append.1 inside with early | late
    · simpa [ready] using none i early
    · rcases List.mem_cons.1 late with rfl | later
      · exact Nat.le_refl _
      · exact Nat.le_of_lt ((List.pairwise_cons.1 ascending.2.1).1 i later)

/-- What holds between two turns: the counters count the links from what is not placed, and the heap holds what is
not placed and waits for none. -/
structure Draining (edges : List Edge) (all degrees ready placed : List Nat) : Prop where
  counted : ∀ i ∈ all, degrees[i]? = some (edges.countP fun edge => edge.origin ∉ placed ∧ edge.target = i)
  waiting : ∀ i, i ∈ ready ↔ (i ∈ all ∧ i ∉ placed) ∧ degrees[i]? = some 0
  distinct : ready.Nodup
  backward : ∀ edge ∈ edges, edge.target ∈ placed → edge.origin ∈ placed

section Draining

variable {edges : List Edge} {all degrees ready placed : List Nat}
  (within : ∀ edge ∈ edges, edge.origin ∈ all ∧ edge.target ∈ all)
  (draining : Draining edges all degrees ready placed)

include within draining in
theorem Draining.ready_iff (i : Nat) :
    i ∈ ready ↔ i ∈ all ∧ i ∉ placed ∧ ∀ j ∈ all, Edge.mk j i ∈ edges → j ∈ placed := by
  rw [draining.waiting, and_assoc]
  refine and_congr_right fun inside => and_congr_right fun _ => ?_
  rw [draining.counted i inside, Option.some.injEq, List.countP_eq_zero]
  constructor
  · intro none j _ member
    by_contra free
    exact none _ member (by simp [free])
  · intro fed edge member counts
    obtain ⟨free, rfl⟩ : edge.origin ∉ placed ∧ edge.target = i := by simpa using counts
    exact free (fed edge.origin (within edge member).1 member)

include within draining in
theorem Draining.min?_eq (ascending : all.Pairwise (· < ·)) :
    ready.min? = nextReady? (fun i j => Edge.mk i j ∈ edges) all placed :=
  min?_eq_find? ascending fun i => by rw [draining.ready_iff within, decide_eq_true_eq]

theorem count_targetsFrom (edges : List Edge) (index i : Nat) :
    (targetsFrom edges index).count i = edges.countP fun edge => edge.target = i ∧ edge.origin = index := by
  rw [targetsFrom, List.count, List.countP_map, List.countP_filter]
  exact List.countP_congr fun edge _ => by simp

-- With the position its links are no longer counted.
theorem countP_unplaced (edges : List Edge) {index : Nat} (free : index ∉ placed) (i : Nat) :
    (edges.countP fun edge => edge.origin ∉ placed ∧ edge.target = i) = (targetsFrom edges index).count i +
      edges.countP fun edge => edge.origin ∉ placed ++ [index] ∧ edge.target = i := by
  rw [List.countP_eq_countP_filter_add _ _ fun edge => edge.origin = index, List.countP_filter, List.countP_filter,
    count_targetsFrom]
  congr 1
  · refine List.countP_congr fun edge _ => ?_
    by_cases here : edge.origin = index
    · simp [here, free]
    · simp [here]
  · refine List.countP_congr fun edge _ => ?_
    by_cases here : edge.origin = index
    · simp [here]
    · simp [here]

include within draining in
theorem Draining.turn {index : Nat} (member : index ∈ ready) : ∃ degrees' ready',
    release? (targetsFrom edges index) degrees (ready.erase index) = some (degrees', ready') ∧
      Draining edges all degrees' ready' (placed ++ [index]) := by
  obtain ⟨inside, free, fed⟩ := (draining.ready_iff within index).1 member
  have linked : ∀ i ∈ targetsFrom edges index, Edge.mk index i ∈ edges := by
    intro i reached
    obtain ⟨edge, kept, rfl⟩ := List.mem_map.1 reached
    obtain ⟨there, origin⟩ := List.mem_filter.1 kept
    rwa [← eq_of_beq origin]
  have enough : ∀ i ∈ targetsFrom edges index, ∃ count, degrees[i]? = some count ∧
      (targetsFrom edges index).count i ≤ count := by
    intro i reached
    refine ⟨_, draining.counted i (within _ (linked i reached)).2, ?_⟩
    rw [countP_unplaced edges free]
    exact Nat.le_add_right _ _
  obtain ⟨degrees', ready', released, counted, distinct, members⟩ := exists_release? enough
    (fun i left => ((draining.waiting i).1 (List.mem_of_mem_erase left)).2) (draining.distinct.erase index)
  refine ⟨degrees', ready', released, fun i there => ?_, fun i => ?_, distinct, fun edge there late => ?_⟩
  · rw [counted, draining.counted i there, countP_unplaced edges free, Option.map_some, Nat.add_sub_cancel_left]
  · rw [members, draining.distinct.mem_erase_iff, draining.waiting]
    by_cases reached : i ∈ targetsFrom edges index
    · have edge := linked i reached
      have there := (within _ edge).2
      have unplaced : i ∉ placed := fun early => free (draining.backward _ edge early)
      have apart : i ≠ index := by
        rintro rfl
        exact free (fed i inside edge)
      have zero : degrees[i]? = some 0 → degrees'[i]? = some 0 := fun none => by rw [counted, none, Option.map_some, Nat.zero_sub]
      simpa [there, unplaced, apart, reached] using zero
    · have same : degrees'[i]? = degrees[i]? := by simp [counted, List.count_eq_zero.2 reached]
      simp only [same, reached, false_and, or_false, List.mem_append, List.mem_singleton, not_or]
      exact ⟨fun ⟨apart, ⟨there, unplaced⟩, zero⟩ => ⟨⟨there, unplaced, apart⟩, zero⟩,
        fun ⟨⟨there, unplaced, apart⟩, zero⟩ => ⟨apart, ⟨there, unplaced⟩, zero⟩⟩
  · rcases List.mem_append.1 late with early | now
    · exact List.mem_append_left _ (draining.backward edge there early)
    · refine List.mem_append_left _ (fed edge.origin (within edge there).1 ?_)
      rwa [← List.mem_singleton.1 now]

include within draining in
theorem Draining.run (ascending : all.Pairwise (· < ·)) : ∃ done, drain? edges degrees ready placed = some done ∧
    done ++ all.filter (· ∉ done) = greedy (fun i j => Edge.mk i j ∈ edges) all placed := by
  have next := draining.min?_eq within ascending
  fun_induction drain? edges degrees ready placed with
  | case1 degrees ready placed none =>
    rw [none] at next
    refine ⟨placed, rfl, ?_⟩
    rw [greedy, ← next]
  | case2 degrees ready placed index found none =>
    obtain ⟨_, _, released, _⟩ := draining.turn within (List.min?_eq_some_iff.1 found).1
    rw [none] at released
    cases released
  | case3 degrees ready placed index found degrees' ready' released ih =>
    obtain ⟨_, _, released', after⟩ := draining.turn within (List.min?_eq_some_iff.1 found).1
    rw [released] at released'
    cases released'
    rw [found] at next
    rw [greedy, ← next]
    exact ih after (after.min?_eq within ascending)

end Draining

/-! ### The nodes -/

namespace Graph

-- The order by way of the heap, or nothing if a counter runs short.
def heapOrder? (g : Graph) : Option (List NodeId) :=
  let all := List.range g.nodes.length
  let degrees := all.map fun index => g.edges.countP (·.target = index)
  (drain? g.edges degrees (all.filter fun index => degrees[index]? = some 0) []).map fun placed =>
    (placed ++ all.filter (· ∉ placed)).filterMap fun index => g.nodes[index]?.map (·.id)

-- The loop comes to an end, and with what is left over the positions stand as the pass over all of them places them.
theorem exists_drain? (g : Graph) : ∃ placed,
    drain? g.edges ((List.range g.nodes.length).map fun index => g.edges.countP (·.target = index))
      ((List.range g.nodes.length).filter fun index =>
        ((List.range g.nodes.length).map fun index => g.edges.countP (·.target = index))[index]? = some 0) [] =
        some placed ∧
      placed ++ (List.range g.nodes.length).filter (· ∉ placed) =
        schedule g.edges (.ofEdges g.nodes.length g.edges) (List.range g.nodes.length) := by
  let all := List.range g.nodes.length
  let degrees := all.map fun index => g.edges.countP (·.target = index)
  have within : ∀ edge ∈ g.edges, edge.origin ∈ all ∧ edge.target ∈ all :=
    fun edge member => (lt_of_mem_edges member).imp List.mem_range.2 List.mem_range.2
  have start : Draining g.edges all degrees (all.filter fun index => degrees[index]? = some 0) [] := by
    refine ⟨fun i member => ?_, fun i => ?_, List.nodup_range.filter _, fun _ _ none => absurd none List.not_mem_nil⟩
    · simp [degrees, all, List.mem_range.1 member]
    · simp [all]
  obtain ⟨placed, drained, order⟩ := start.run within List.pairwise_lt_range
  exact ⟨placed, drained, order.trans g.schedule_eq_greedy.symm⟩

theorem heapOrder?_eq (g : Graph) : g.heapOrder? = some g.executionOrder := by
  obtain ⟨placed, drained, order⟩ := g.exists_drain?
  rw [heapOrder?, drained, Option.map_some, order, executionOrder]

/-- The planner takes the first node that is ready, as long as there is one. What lies behind a circle of links comes
last, as it stands in the document, and all else after its producers. No counter falls below zero, not even between two
links of the node that is placed, so the heap may hold what comes to zero. -/
theorem executionOrder_greedy (g : Graph) (distinct : g.nodeIds.Nodup) :
    g.executionOrder = greedy g.Precedes g.nodeIds [] ∧ g.executionOrder.Perm g.nodeIds ∧
      (∃ placed left, g.executionOrder = placed ++ left ∧ left.Sublist g.nodeIds ∧
        ∀ id ∈ g.nodeIds, id ∈ left ↔ BehindCircle g.Precedes id) ∧
      (∀ a b, g.Precedes a b → ¬ BehindCircle g.Precedes b → g.executionOrder.idxOf a < g.executionOrder.idxOf b) ∧
      (∀ placed pending unplaced, Pending.Reached g.nodes.length g.edges placed pending unplaced →
        schedule g.edges (.ofEdges g.nodes.length g.edges) (List.range g.nodes.length) =
            placed ++ schedule g.edges pending unplaced ∧
          (∀ count ∈ pending, 0 ≤ count) ∧
          ∀ index, unplaced.find? pending.isReady = some index →
            ∀ taken, taken <+: g.edges.filter (·.origin == index) → ∀ count ∈ pending.lower taken, 0 ≤ count) ∧
      g.heapOrder? = some g.executionOrder := by
  have placing := g.executionOrder_placing distinct
  have inside : ∀ a b, g.Precedes a b → a ∈ g.nodeIds ∧ b ∈ g.nodeIds := fun _ _ ⟨_, _, _, _, ends⟩ => ends
  have origins : ∀ edge ∈ g.edges, edge.origin < g.nodes.length := fun _ member => (lt_of_mem_edges member).1
  obtain ⟨placed, left, split, kept, behind, forward⟩ := placing.exists_behind inside
  refine ⟨g.executionOrder_eq_greedy distinct, placing.perm distinct, ⟨placed, left, split, kept, behind⟩, forward,
    fun placed pending unplaced reached => ?_, g.heapOrder?_eq⟩
  exact ⟨reached.schedule_eq, reached.nonneg origins, fun index next taken some => reached.lower_nonneg origins next some⟩

-- Two nodes feed each other, a third one lies behind them, and two links lead from the last node to the same one.
def knotGraph : Graph where
  nodes := [6, 5, 4, 3, 2, 1].map fun id => Node.plain (.number id) "Blur"
  links := [⟨1, .number 1, 0, .number 4, 0, "IMAGE"⟩, ⟨2, .number 1, 1, .number 4, 1, "MASK"⟩,
    ⟨3, .number 4, 0, .number 5, 0, "FLOW"⟩, ⟨4, .number 2, 0, .number 3, 0, "IMAGE"⟩,
    ⟨5, .number 3, 0, .number 2, 0, "IMAGE"⟩, ⟨6, .number 3, 0, .number 6, 0, "IMAGE"⟩,
    ⟨7, .number 9, 0, .number 1, 0, "IMAGE"⟩]
  nextLinkId := 8

theorem executionOrder_greedy_knot :
    knotGraph.nodeIds.Nodup ∧ knotGraph.executionOrder = [1, 4, 5, 6, 3, 2].map NodeId.number ∧
      knotGraph.heapOrder? = some ([1, 4, 5, 6, 3, 2].map NodeId.number) ∧
      greedy knotGraph.Precedes knotGraph.nodeIds [] = [1, 4, 5, 6, 3, 2].map NodeId.number := by
  have distinct : knotGraph.nodeIds.Nodup := by decide +kernel
  have order : knotGraph.executionOrder = [1, 4, 5, 6, 3, 2].map NodeId.number := by decide +kernel
  obtain ⟨chosen, _, _, _, _, heap⟩ := executionOrder_greedy knotGraph distinct
  exact ⟨distinct, order, heap.trans (congrArg some order), chosen.symm.trans order⟩

end Graph
end Patchbay
