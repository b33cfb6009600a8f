import Mathlib.Data.List.Find
import Patchbay.Proofs.Ordering.Schedule

/-!
The order in which a graph is run, told without counters: the first node whose producers are all placed comes next.
The counters of the pass count nothing that is not there, so none of them falls below zero.
-/
set_option autoImplicit false

namespace Patchbay

/-! ### The greedy order -/

theorem name_mem_iff {α β : Type} {name : α → β} {all placed : List α}
    (distinct : ∀ x ∈ all, ∀ y ∈ all, name x = name y → x = y) (inside : ∀ x ∈ placed, x ∈ all) {x : α}
    (member : x ∈ all) : name x ∈ placed.map name ↔ x ∈ placed := by
  rw [List.mem_map]
  refine ⟨fun ⟨y, there, equal⟩ => ?_, fun there => ⟨x, there, rfl⟩⟩
  rwa [← distinct y (inside y there) x member equal]

section Greedy

variable {α β : Type} [DecidableEq α] [DecidableEq β]

-- The first thing that is not placed while all that feeds it is.
def nextReady? (feeds : α → α → Prop) [DecidableRel feeds] (all placed : List α) : Option α :=
  all.find? fun x => x ∉ placed ∧ ∀ y ∈ all, feeds y x → y ∈ placed

theorem mem_of_nextReady? {feeds : α → α → Prop} [DecidableRel feeds] {all placed : List α} {x : α}
    (found : nextReady? feeds all placed = some x) : x ∈ all ∧ x ∉ placed := by
  have chosen := List.find?_some found
  rw [decide_eq_true_eq] at chosen
  exact ⟨List.mem_of_find?_eq_some found, chosen.1⟩

theorem unplaced_append (all placed : List α) (x : α) :
    all.filter (· ∉ placed ++ [x]) = (all.filter (· ∉ placed)).filter (· ≠ x) := by
  rw [List.filter_filter]
  apply List.filter_congr
  intro y _
  simp [and_comm]

theorem length_unplaced_lt {all placed : List α} {x : α} (inside : x ∈ all ∧ x ∉ placed) :
    (all.filter (· ∉ placed ++ [x])).length < (all.filter (· ∉ placed)).length := by
  rw [unplaced_append]
  exact List.length_filter_lt_length_iff_exists.2
    ⟨x, List.mem_filter.2 ⟨inside.1, decide_eq_true inside.2⟩, by simp⟩

/-- As long as something is ready, the first such thing is placed; the rest follows as it stands. -/
def greedy (feeds : α → α → Prop) [DecidableRel feeds] (all placed : List α) : List α :=
  match _found : nextReady? feeds all placed with
  | some x => greedy feeds all (placed ++ [x])
  | none => placed ++ all.filter (· ∉ placed)
termination_by (all.filter (· ∉ placed)).length
decreasing_by exact length_unplaced_lt (mem_of_nextReady? _found)

/-! Under other names the order is the same. -/

variable {feeds : α → α → Prop} [DecidableRel feeds] {feeds' : β → β → Prop} [DecidableRel feeds'] {name : α → β}
  {all placed : List α} (distinct : ∀ x ∈ all, ∀ y ∈ all, name x = name y → x = y)
  (same : ∀ x ∈ all, ∀ y ∈ all, feeds x y ↔ feeds' (name x) (name y)) (inside : ∀ x ∈ placed, x ∈ all)

include distinct same inside in
theorem nextReady?_map :
    nextReady? feeds' (all.map name) (placed.map name) = (nextReady? feeds all placed).map name := by
  rw [nextReady?, nextReady?, List.find?_map]
  congr 1
  refine List.find?_congr fun x member => decide_eq_decide.2 ?_
  refine and_congr (not_congr (name_mem_iff distinct inside member)) ?_
  rw [List.forall_mem_map]
  exact forall₂_congr fun y there => imp_congr (same y there x member).symm (name_mem_iff distinct inside there)

include distinct same inside in
theorem greedy_map : greedy feeds' (all.map name) (placed.map name) = (greedy feeds all placed).map name := by
  fun_induction greedy feeds all placed with
  | case1 placed x found ih =>
    have there := (mem_of_nextReady? found).1
    have inside' : ∀ y ∈ placed ++ [x], y ∈ all := by
      simpa [or_imp, forall_and] using And.intro inside there
    rw [greedy, nextReady?_map distinct same inside, found]
    simpa using ih inside'
  | case2 placed none =>
    rw [greedy, nextReady?_map distinct same inside, none]
    simp only [Option.map_none, List.map_append, List.filter_map]
    congr 2
    exact List.filter_congr fun x member => decide_eq_decide.2 (not_congr (name_mem_iff distinct inside member))

end Greedy

/-! ### The pass over positions -/

-- A node is ready for the counters when it is ready for the greedy order.
theorem find?_isReady {edges : List Edge} {all placed unplaced : List Nat} {pending : Pending}
    (counts : pending.Counts edges unplaced) (inside : ∀ i ∈ unplaced, i < pending.length)
    (left : unplaced = all.filter (· ∉ placed)) :
    unplaced.find? pending.isReady = nextReady? (fun i j => Edge.mk i j ∈ edges) all placed := by
  rw [left, List.find?_filter, nextReady?]
  refine List.find?_congr fun i member => decide_eq_decide.2 ?_
  rw [decide_eq_true_eq]
  refine and_congr_right fun free => ?_
  have waits : ∀ j, j ∈ unplaced ↔ j ∈ all ∧ j ∉ placed := by simp [left]
  rw [Pending.isReady_iff counts (inside i ((waits i).2 ⟨member, free⟩))]
  simp only [waits, and_imp]
  exact forall₂_congr fun j there => not_imp_not

theorem schedule_greedy {edges : List Edge} {all placed unplaced : List Nat} {pending : Pending}
    (counts : pending.Counts edges unplaced) (inside : ∀ i ∈ unplaced, i < pending.length)
    (left : unplaced = all.filter (· ∉ placed)) :
    placed ++ schedule edges pending unplaced = greedy (fun i j => Edge.mk i j ∈ edges) all placed := by
  fun_induction schedule edges pending unplaced generalizing placed with
  | case1 pending unplaced none =>
    rw [find?_isReady counts inside left] at none
    rw [greedy, none, left]
  | case2 pending unplaced index found ih =>
    have member := List.mem_of_find?_eq_some found
    have inside' : ∀ i ∈ dropIndex index unplaced, i < (pending.place edges index).length := by
      intro i later
      rw [Pending.length_place]
      exact inside i (List.mem_filter.1 later).1
    have left' : dropIndex index unplaced = all.filter (· ∉ placed ++ [index]) := by
      rw [unplaced_append, ← left, dropIndex]
    rw [find?_isReady counts inside left] at found
    rw [greedy, found]
    simpa using ih (counts.place member) inside' left'

namespace Pending

/-- How far the pass has come: what is placed, the counters, and what is still to be placed. -/
inductive Reached (size : Nat) (edges : List Edge) : List Nat → Pending → List Nat → Prop where
  | start : Reached size edges [] (ofEdges size edges) (List.range size)
  | place {placed unplaced : List Nat} {pending : Pending} {index : Nat} (before : Reached size edges placed pending unplaced)
      (next : unplaced.find? pending.isReady = some index) :
      Reached size edges (placed ++ [index]) (pending.place edges index) (dropIndex index unplaced)

section Reached

variable {size : Nat} {edges : List Edge} (origins : ∀ edge ∈ edges, edge.origin < size) {placed unplaced : List Nat}
  {pending : Pending} (reached : Reached size edges placed pending unplaced)

include reached in
theorem Reached.schedule_eq :
    schedule edges (ofEdges size edges) (List.range size) = placed ++ schedule edges pending unplaced := by
  induction reached with
  | start => rfl
  | @place placed unplaced pending index before next ih =>
    rw [ih, schedule, next]
    simp

include origins reached in
theorem Reached.counts : pending.Counts edges unplaced := by
  induction reached with
  | start => exact counts_ofEdges origins
  | place before next ih => exact ih.place (List.mem_of_find?_eq_some next)

include origins reached in
-- The links that are taken off are among those that are counted.
theorem Reached.lower_nonneg {index : Nat} (next : unplaced.find? pending.isReady = some index) {taken : List Edge}
    (some : taken <+: edges.filter (·.origin == index)) : ∀ count ∈ pending.lower taken, 0 ≤ count := by
  intro count member
  obtain ⟨i, place⟩ := List.mem_iff_getElem?.1 member
  rw [getElem?_lower, Option.map_eq_some_iff] at place
  obtain ⟨before, there, rfl⟩ := place
  rw [reached.counts origins i (List.getElem?_eq_some_iff.1 there).1, Option.some.injEq] at there
  have waits := List.mem_of_find?_eq_some next
  have fewer : taken.countP (·.target == i) ≤ edges.countP fun edge => unplaced.contains edge.origin && edge.target == i :=
    calc taken.countP (·.target == i)
      _ ≤ (edges.filter (·.origin == index)).countP (·.target == i) := some.sublist.countP_le
      _ = edges.countP fun edge => edge.target == i && edge.origin == index := List.countP_filter ..
      _ ≤ _ := List.countP_mono_left fun edge _ here => by
        simp only [Bool.and_eq_true, beq_iff_eq] at here
        simp [here.1, here.2, waits]
  omega

include origins reached in
theorem Reached.nonneg : ∀ count ∈ pending, 0 ≤ count := by
  intro count member
  obtain ⟨i, place⟩ := List.mem_iff_getElem?.1 member
  rw [reached.counts origins i (List.getElem?_eq_some_iff.1 place).1, Option.some.injEq] at place
  omega

end Reached
end Pending

namespace Graph

instance (g : Graph) : DecidableRel g.Precedes := fun a b =>
  inferInstanceAs (Decidable (∃ link ∈ g.links, link.origin = a ∧ link.target = b ∧ a ∈ g.nodeIds ∧ b ∈ g.nodeIds))

theorem schedule_eq_greedy (g : Graph) :
    schedule g.edges (.ofEdges g.nodes.length g.edges) (List.range g.nodes.length) =
      greedy (fun i j => Edge.mk i j ∈ g.edges) (List.range g.nodes.length) [] := by
  have unplaced : List.range g.nodes.length = (List.range g.nodes.length).filter (· ∉ ([] : List Nat)) := by simp
  refine schedule_greedy g.counts_edges (fun i member => ?_) unplaced
  rw [Pending.length_ofEdges]
  exact List.mem_range.1 member

theorem executionOrder_eq_greedy (g : Graph) (distinct : g.nodeIds.Nodup) :
    g.executionOrder = greedy g.Precedes g.nodeIds [] := by
  let all := List.range g.nodes.length
  have named : greedy g.Precedes (all.map g.nameAt) ([].map g.nameAt) = _ := greedy_map
    (fun i insideI j insideJ => nameAt_inj distinct (List.mem_range.1 insideI) (List.mem_range.1 insideJ))
    (fun i insideI j insideJ => mem_edges_iff_precedes distinct (List.mem_range.1 insideI) (List.mem_range.1 insideJ))
    fun _ none => absurd none List.not_mem_nil
  rw [map_nameAt_range, List.map_nil] at named
  rw [g.executionOrder_eq, g.schedule_eq_greedy, named]

end Graph
end Patchbay
