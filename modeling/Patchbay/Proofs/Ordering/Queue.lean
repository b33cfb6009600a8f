import Patchbay.Proofs.Ordering.Placing
import Patchbay.Sequencing.Order

/-!
The order of a document from before sequencing, as a placing of its nodes. A counter says how often a node is
still fed by waiting nodes, and the queue holds the waiting nodes that are not.
-/
set_option autoImplicit false

namespace Patchbay

/-! ### Counters -/

theorem countOf_lowerCount (id target : NodeId) (counts : List (NodeId × Nat)) :
    countOf id (lowerCount target counts) =
      (countOf id counts).map fun count => if id = target then count - 1 else count := by
  rw [countOf, lowerCount, List.find?_map, Option.map_map]
  have sameIds : ((fun entry : NodeId × Nat => entry.1 == id) ∘
      fun (other, count) => (other, if other = target then count - 1 else count)) = fun entry => entry.1 == id := rfl
  rw [sameIds, countOf]
  cases found : counts.find? (·.1 == id) with
  | none => rfl
  | some entry =>
    have key : entry.1 = id := by simpa using List.find?_some found
    simp only [Option.map_some, Function.comp, key]

theorem countOf_release (id : NodeId) (targets : List NodeId) (counts : List (NodeId × Nat)) :
    countOf id (release targets counts).1 = (countOf id counts).map (· - targets.count id) := by
  induction targets generalizing counts with
  | nil => simp [release]
  | cons target rest ih =>
    have step : (release (target :: rest) counts).1 = (release rest (lowerCount target counts)).1 := rfl
    rw [step, ih, countOf_lowerCount, List.count_cons]
    cases countOf id counts with
    | none => rfl
    | some count =>
      by_cases here : target = id
      · simp only [here, BEq.rfl, if_true, Option.map_some, Option.some.injEq]
        omega
      · have other : (target == id) = false := by simpa using here
        simp only [other, if_neg (Ne.symm here), Option.map_some, Bool.false_eq_true, if_false, Nat.add_zero]

theorem mem_release_iff (id : NodeId) (targets : List NodeId) (counts : List (NodeId × Nat)) :
    id ∈ (release targets counts).2 ↔
      id ∈ targets ∧ ∃ count, countOf id counts = some count ∧ count ≤ targets.count id := by
  induction targets generalizing counts with
  | nil => simp [release]
  | cons target rest ih =>
    have step : (release (target :: rest) counts).2 =
        if countOf target (lowerCount target counts) = some 0 then
          target :: (release rest (lowerCount target counts)).2
        else (release rest (lowerCount target counts)).2 := rfl
    have split : id ∈ (release (target :: rest) counts).2 ↔
        (id = target ∧ countOf target (lowerCount target counts) = some 0) ∨
          id ∈ (release rest (lowerCount target counts)).2 := by
      rw [step]
      by_cases ready : countOf target (lowerCount target counts) = some 0
      · rw [if_pos ready, List.mem_cons]
        simp [ready]
      · rw [if_neg ready]
        simp [ready]
    rw [split, ih, countOf_lowerCount, countOf_lowerCount, List.count_cons, List.mem_cons]
    cases found : countOf id counts with
    | none =>
      by_cases here : id = target
      · subst here
        simp [found]
      · simp [here]
    | some count =>
      by_cases here : id = target
      · subst here
        have listed : id ∈ rest ↔ 0 < rest.count id := List.count_pos_iff.symm
        simp only [found, BEq.rfl, if_true, Option.map_some, Option.some.injEq, true_and, true_or, listed,
          exists_eq_left']
        omega
      · have other : (target == id) = false := by simpa using Ne.symm here
        simp [here, other]

/-! ### The queue -/

theorem count_flatMap_without (successors : NodeId → List NodeId) {waiting : List NodeId} {id : NodeId}
    (member : id ∈ waiting) (distinct : waiting.Nodup) (other : NodeId) :
    (waiting.flatMap successors).count other =
      (successors id).count other + ((without id waiting).flatMap successors).count other := by
  have split := (perm_cons_filter_ne member distinct).flatMap_right successors
  rw [split.count_eq, List.flatMap_cons, List.count_append]
  rfl

theorem placeQueue_placing (successors : NodeId → List NodeId) (counts : List (NodeId × Nat))
    (waiting queue : List NodeId) (distinct : waiting.Nodup)
    (counted : ∀ id ∈ waiting, countOf id counts = some ((waiting.flatMap successors).count id))
    (queued : ∀ id ∈ waiting, id ∈ queue ↔ id ∉ waiting.flatMap successors) :
    Placing (fun u v => v ∈ successors u) waiting (placeQueue successors counts waiting queue) := by
  -- The queue may list a node twice; the second time it is no longer waiting.
  fun_induction placeQueue successors counts waiting queue with
  | case1 counts waiting =>
    refine .stuck waiting fun id member => ?_
    have fed := mt (queued id member).2 List.not_mem_nil
    exact List.mem_flatMap.1 (not_not.1 fed)
  | case2 counts waiting id queue member counts' ready released ih =>
    have unfed := (queued id member).1 List.mem_cons_self
    have counts' : counts' = (release (successors id) counts).1 := by rw [released]
    have ready' : ready = (release (successors id) counts).2 := by rw [released]
    refine .place id member (fun u inside feeds => unfed (List.mem_flatMap.2 ⟨u, inside, feeds⟩)) ?_
    refine ih (distinct.filter _) (fun other left => ?_) fun other left => ?_
    · have inside := (List.mem_filter.1 left).1
      rw [counts', countOf_release, counted other inside, count_flatMap_without successors member distinct,
        Option.map_some, Nat.add_sub_cancel_left]
    · obtain ⟨inside, apart⟩ := List.mem_filter.1 left
      have apart : other ≠ id := by simpa using apart
      have before := queued other inside
      rw [List.mem_cons, or_iff_right apart] at before
      have fewer := count_flatMap_without successors member distinct other
      rw [List.mem_append, before, ready', mem_release_iff, counted other inside, ← List.count_eq_zero,
        ← List.count_eq_zero, ← List.count_pos_iff]
      simp only [Option.some.injEq, exists_eq_left']
      omega
  | case3 counts waiting id queue absent ih =>
    refine ih distinct counted fun other inside => ?_
    have apart : other ≠ id := fun same => absent (same ▸ inside)
    rw [← queued other inside, List.mem_cons, or_iff_right apart]

theorem eraseDups_of_nodup {ids : List NodeId} (distinct : ids.Nodup) : ids.eraseDups = ids := by
  induction ids with
  | nil => rfl
  | cons id rest ih =>
    rw [List.nodup_cons] at distinct
    have kept : rest.filter (fun other => !other == id) = rest := by
      rw [List.filter_eq_self]
      intro other member
      have apart : other ≠ id := fun same => distinct.1 (same ▸ member)
      simpa using apart
    rw [List.eraseDups_cons, kept, ih distinct.2]

namespace Document

theorem lookup_feeds {candidates : List NodeId} (reach : NodeId → List NodeId) {id : NodeId}
    (member : id ∈ candidates) : (candidates.map fun id => (id, reach id)).lookup id = some (reach id) := by
  induction candidates with
  | nil => cases member
  | cons first rest ih =>
    rw [List.map_cons, List.lookup_cons]
    by_cases here : id = first
    · subst here
      rw [BEq.rfl]
    · have other : (id == first) = false := by simpa using here
      rw [other]
      exact ih ((List.mem_cons.1 member).resolve_left here)

theorem countOf_map {candidates : List NodeId} (count : NodeId → Nat) {id : NodeId} (member : id ∈ candidates) :
    countOf id (candidates.map fun id => (id, count id)) = some (count id) := by
  rw [countOf, List.find?_map]
  have ids : ((fun entry : NodeId × Nat => entry.1 == id) ∘ fun id => (id, count id)) = (· == id) := rfl
  have found : candidates.find? (· == id) = some id := by
    cases first : candidates.find? (· == id) with
    | none => exact absurd (beq_self_eq_true id) (List.find?_eq_none.1 first id member)
    | some other =>
      have same : other = id := by simpa using List.find?_some first
      rw [same]
  rw [ids, found]
  rfl

/-- The migrator places every candidate once, none before one that reaches it, unless there is no other. -/
theorem flowOrder_placing (doc : Document) (r : Registry) (distinct : (doc.orderCandidates r).Nodup) :
    Placing (fun u v => v ∈ doc.reachableSuccessors r u) (doc.orderCandidates r) (doc.flowOrder r) := by
  have feeds : doc.feeds r = (doc.orderCandidates r).map fun id => (id, doc.reachableSuccessors r id) := by
    rw [Document.feeds, eraseDups_of_nodup distinct]
  have successors : ∀ id ∈ doc.orderCandidates r,
      ((doc.feeds r).lookup id).getD [] = doc.reachableSuccessors r id := by
    intro id member
    rw [feeds, lookup_feeds _ member]
    rfl
  have fed : (doc.orderCandidates r).flatMap (fun id => ((doc.feeds r).lookup id).getD []) =
      (doc.feeds r).flatMap (·.2) := by
    rw [feeds, List.flatMap_map, ← feeds]
    exact List.flatMap_congr successors
  have counted : ∀ id ∈ doc.orderCandidates r,
      countOf id (doc.feedCounts r) = some (((doc.feeds r).flatMap (·.2)).count id) := by
    intro id member
    have counts : doc.feedCounts r =
        (doc.orderCandidates r).map fun id => (id, ((doc.feeds r).flatMap (·.2)).count id) := by
      rw [feedCounts]
      conv => lhs; rw [feeds]
      rw [List.map_map, ← feeds]
      rfl
    rw [counts, countOf_map _ member]
  have placing := placeQueue_placing (fun id => ((doc.feeds r).lookup id).getD []) (doc.feedCounts r)
    (doc.orderCandidates r) ((doc.orderCandidates r).filter fun id => countOf id (doc.feedCounts r) == some 0)
    distinct (fun id member => by rw [fed, counted id member]) fun id member => by
      rw [fed, List.mem_filter, counted id member, ← List.count_eq_zero]
      simp [member]
  exact placing.congr fun u member v _ => by rw [successors u member]

end Document
end Patchbay
