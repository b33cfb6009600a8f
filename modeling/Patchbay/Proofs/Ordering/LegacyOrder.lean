import Patchbay.Proofs.Graph.Loading
import Patchbay.Proofs.Ordering.Reach
import Patchbay.Proofs.Ordering.Schedule
import Patchbay.Proofs.Sequencing.Chain

/-!
The chain of a legacy document is the order in which the document is run. The chain runs forward along the
data links, so that they form no cycle with it, and it leaves the planner no choice.
-/
set_option autoImplicit false

namespace Patchbay

open Relation

namespace Document

variable {doc : Document} {r : Registry}

-- A link of the chain leads from one node to the other.
def Follows (doc : Document) (r : Registry) (a b : NodeId) : Prop :=
  ∃ flow ∈ (doc.addChain r).flowLinkList, flow.origin = a ∧ flow.target = b

-- A link of the runtime document does: a data link, or one of the chain.
def LinksTo (doc : Document) (r : Registry) (a b : NodeId) : Prop := doc.Feeds a b ∨ doc.Follows r a b

theorem Reaches.transGen {u v : NodeId} (reaches : doc.Reaches r u v) : TransGen doc.Feeds u v := by
  induction reaches with
  | direct link => exact .single link
  | through before passes link ih => exact ih.tail link

theorem candidate_or_passThrough {id : NodeId} (inside : id ∈ doc.nodeIds) :
    id ∈ doc.orderCandidates r ∨ id ∈ doc.passThroughIds r := by
  by_cases passes : id ∈ doc.passThroughIds r
  · exact .inr passes
  · exact .inl (List.mem_filter.2 ⟨inside, by simpa using passes⟩)

theorem Feeds.target_mem {a b : NodeId} (link : doc.Feeds a b) : b ∈ doc.nodeIds := by
  obtain ⟨_, _, _, _, _, _, inside⟩ := link
  exact inside

/-- Data links that only rise form no cycle. -/
theorem acyclic_feeds_of_rank (rank : NodeId → Nat)
    (rises : ∀ link ∈ doc.links, rank link.origin < rank link.target) : Acyclic doc.Feeds := by
  refine acyclic_of_rank rank fun a b link => ?_
  obtain ⟨stored, member, _, rfl, rfl, _⟩ := link
  exact rises stored member

/-! ### No cycle -/

section Forward

variable (distinct : (doc.orderCandidates r).Nodup) (acyclic : Acyclic doc.Feeds)

include distinct acyclic in
theorem flowOrder_pairwise :
    (doc.flowOrder r).Pairwise fun a b => ¬ a ∈ doc.reachableSuccessors r b := by
  refine (doc.flowOrder_placing r distinct).pairwise (fun u circle => acyclic u ?_) distinct
  exact circle.lift' id fun _ _ step => (mem_reachableSuccessors_iff.1 step).1.transGen

include distinct in
theorem mem_flowOrder_iff (id : NodeId) : id ∈ doc.flowOrder r ↔ id ∈ doc.orderCandidates r :=
  (flowOrder_perm distinct).mem_iff

include distinct acyclic in
theorem idxOf_lt_of_reaches {u v : NodeId} (memberU : u ∈ doc.orderCandidates r) (memberV : v ∈ doc.orderCandidates r)
    (reaches : doc.Reaches r u v) : (doc.flowOrder r).idxOf u < (doc.flowOrder r).idxOf v := by
  apply idxOf_lt_of_pairwise (flowOrder_pairwise distinct acyclic) ((mem_flowOrder_iff distinct u).2 memberU)
    ((mem_flowOrder_iff distinct v).2 memberV)
  · intro same
    subst same
    exact acyclic u reaches.transGen
  · exact mem_reachableSuccessors_iff.2 ⟨reaches, (mem_orderCandidates_iff.1 memberV).2⟩

include distinct in
theorem idxOf_lt_of_follows {a b : NodeId} (follows : doc.Follows r a b) :
    (doc.flowOrder r).idxOf a < (doc.flowOrder r).idxOf b := by
  obtain ⟨flow, member, rfl, rfl⟩ := follows
  obtain ⟨before, after, same⟩ := exists_of_mem_chainLinks member
  have ids := flowOrder_nodup distinct
  rw [same, List.nodup_append, List.nodup_cons] at ids
  obtain ⟨_, ⟨later, _⟩, apart⟩ := ids
  have origin : flow.origin ∉ before := fun inside => apart _ inside _ List.mem_cons_self rfl
  have target : flow.target ∉ before := fun inside => apart _ inside _ (List.mem_cons_of_mem _ List.mem_cons_self) rfl
  have other : flow.origin ≠ flow.target := fun equal => later (equal ▸ List.mem_cons_self)
  rw [same, List.idxOf_append_of_notMem origin, List.idxOf_append_of_notMem target, List.idxOf_cons_self,
    List.idxOf_cons_ne _ other]
  omega

-- Where a walk along data links and the chain has come to: a node later in the order, or a pass-through node
-- that such a node reaches.
def Ahead (doc : Document) (r : Registry) (start id : NodeId) : Prop :=
  (id ∈ doc.orderCandidates r ∧ (doc.flowOrder r).idxOf start < (doc.flowOrder r).idxOf id) ∨
    (id ∈ doc.passThroughIds r ∧ ∃ last ∈ doc.orderCandidates r,
      (doc.flowOrder r).idxOf start ≤ (doc.flowOrder r).idxOf last ∧ doc.Reaches r last id)

include distinct acyclic in
theorem ahead_of_reaches {start last id : NodeId} (member : last ∈ doc.orderCandidates r)
    (behind : (doc.flowOrder r).idxOf start ≤ (doc.flowOrder r).idxOf last) (inside : id ∈ doc.nodeIds)
    (reaches : doc.Reaches r last id) : doc.Ahead r start id := by
  rcases candidate_or_passThrough inside with candidate | passes
  · exact .inl ⟨candidate, Nat.lt_of_le_of_lt behind (idxOf_lt_of_reaches distinct acyclic member candidate reaches)⟩
  · exact .inr ⟨passes, last, member, behind, reaches⟩

include distinct acyclic in
theorem ahead_of_step {start last id : NodeId} (member : last ∈ doc.orderCandidates r)
    (behind : (doc.flowOrder r).idxOf start ≤ (doc.flowOrder r).idxOf last)
    (step : doc.LinksTo r last id) : doc.Ahead r start id := by
  rcases step with link | follows
  · exact ahead_of_reaches distinct acyclic member behind link.target_mem (.direct link)
  · have later := idxOf_lt_of_follows distinct follows
    obtain ⟨flow, stored, rfl, rfl⟩ := follows
    exact .inl ⟨(candidates_of_mem_chain distinct stored).2, Nat.lt_of_le_of_lt behind later⟩

include distinct acyclic in
theorem ahead_of_walk {start id : NodeId} (member : start ∈ doc.orderCandidates r)
    (walk : TransGen (doc.LinksTo r) start id) : doc.Ahead r start id := by
  induction walk with
  | single step => exact ahead_of_step distinct acyclic member (Nat.le_refl _) step
  | tail _ step ih =>
    rcases ih with ⟨candidate, later⟩ | ⟨passes, last, lastMember, behind, reaches⟩
    · exact ahead_of_step distinct acyclic candidate (Nat.le_of_lt later) step
    · rcases step with link | ⟨flow, stored, origin, _⟩
      · exact ahead_of_reaches distinct acyclic lastMember behind link.target_mem (.through reaches passes link)
      · -- The chain does not leave pass-through nodes.
        have candidate := (candidates_of_mem_chain distinct stored).1
        rw [origin] at candidate
        exact absurd passes (mem_orderCandidates_iff.1 candidate).2

include distinct in
/-- A walk that takes a link of the chain comes through a candidate there. -/
theorem transGen_or_candidate {a b : NodeId} (walk : TransGen (doc.LinksTo r) a b) :
    TransGen doc.Feeds a b ∨ ∃ c ∈ doc.orderCandidates r,
      ReflTransGen (doc.LinksTo r) a c ∧ TransGen (doc.LinksTo r) c b := by
  have leaves : ∀ {c d}, doc.Follows r c d → c ∈ doc.orderCandidates r := by
    intro c d ⟨flow, stored, origin, _⟩
    exact origin ▸ (candidates_of_mem_chain distinct stored).1
  induction walk with
  | single step =>
    rcases step with link | follows
    · exact .inl (.single link)
    · exact .inr ⟨a, leaves follows, .refl, .single (.inr follows)⟩
  | tail before step ih =>
    rcases ih with data | ⟨c, candidate, first, second⟩
    · rcases step with link | follows
      · exact .inl (data.tail link)
      · exact .inr ⟨_, leaves follows, before.to_reflTransGen, .single (.inr follows)⟩
    · exact .inr ⟨c, candidate, first, second.tail step⟩

include distinct acyclic in
theorem acyclic_linksTo : Acyclic (doc.LinksTo r) := by
  intro id circle
  rcases transGen_or_candidate distinct circle with data | ⟨c, candidate, first, second⟩
  · exact acyclic id data
  · -- The same cycle, walked from a candidate, comes back to where it is not ahead.
    rcases ahead_of_walk distinct acyclic candidate (second.trans_left first) with ⟨_, later⟩ | ⟨passes, _⟩
    · exact Nat.lt_irrefl _ later
    · exact (mem_orderCandidates_iff.1 candidate).2 passes

end Forward

/-! ### The planner -/

section Planner

variable (dataOnly : doc.DataOnly) (nodeIds : doc.nodeIds.Nodup) (linkIds : (doc.links.map (·.id)).Nodup)
  (room : doc.nextLinkId.toNat + (doc.orderCandidates r).length ≤ UInt64.size)

include dataOnly nodeIds linkIds room in
theorem ofDocument_chained : (Graph.ofDocument (doc.chained r)).nodeIds = doc.nodeIds ∧
    (Graph.ofDocument (doc.chained r)).links = (doc.chained r).links := by
  have distinct : (doc.orderCandidates r).Nodup := nodeIds.filter _
  have ids := (nodeIds_of_outline (chained_outline dataOnly distinct room)).1
  have distinctIds : (doc.chained r).nodeIds.Nodup := by
    rw [ids]
    exact nodeIds
  rw [Graph.ofDocument_of_distinct _ distinctIds (chained_linkIds dataOnly distinct room linkIds)]
  exact ⟨ids, rfl⟩

include dataOnly nodeIds linkIds room in
theorem precedes_chained_iff (a b : NodeId) :
    (Graph.ofDocument (doc.chained r)).Precedes a b ↔ doc.LinksTo r a b := by
  have distinct : (doc.orderCandidates r).Nodup := nodeIds.filter _
  obtain ⟨ids, links⟩ := ofDocument_chained dataOnly nodeIds linkIds room
  rw [Graph.Precedes, ids, links, chained_links]
  constructor
  · intro ⟨link, member, origin, target, insideA, insideB⟩
    rcases List.mem_append.1 member with data | chain
    · obtain ⟨stored, linked, rfl⟩ := List.mem_map.1 data
      exact .inl ⟨stored, linked, dataOnly.links stored linked, origin, target, insideA, insideB⟩
    · obtain ⟨flow, stored, rfl⟩ := List.mem_map.1 chain
      exact .inr ⟨flow, stored, origin, target⟩
  · intro step
    rcases step with ⟨link, linked, _, origin, target, insideA, insideB⟩ | ⟨flow, stored, rfl, rfl⟩
    · exact ⟨_, List.mem_append_left _ (List.mem_map_of_mem linked), origin, target, insideA, insideB⟩
    · obtain ⟨origin, target⟩ := candidates_of_mem_chain distinct stored
      exact ⟨_, List.mem_append_right _ (List.mem_map_of_mem stored), rfl, rfl,
        (mem_orderCandidates_iff.1 origin).1, (mem_orderCandidates_iff.1 target).1⟩

end Planner

/-- A legacy document without data cycles is run in the order that its chain was made along. -/
theorem executionOrder_expand (r : Registry) (doc : Document) (legacy : doc.supportsFlow = false)
    (plain : doc.hasCompactFlow = false) (dataOnly : doc.DataOnly) (nodeIds : doc.nodeIds.Nodup)
    (linkIds : (doc.links.map (·.id)).Nodup)
    (room : doc.nextLinkId.toNat + (doc.orderCandidates r).length ≤ UInt64.size) (acyclic : Acyclic doc.Feeds) :
    ∃ runtime, doc.expand r = .ok runtime ∧ Acyclic (Graph.ofDocument runtime).Precedes ∧
      ((Graph.ofDocument runtime).executionOrder.filter fun id => !(runtime.passThroughIds r).contains id) =
        doc.flowOrder r := by
  have distinct : (doc.orderCandidates r).Nodup := nodeIds.filter _
  have precedes : (Graph.ofDocument (doc.chained r)).Precedes = doc.LinksTo r := by
    funext a b
    exact propext (precedes_chained_iff dataOnly nodeIds linkIds room a b)
  have noCycle : Acyclic (Graph.ofDocument (doc.chained r)).Precedes := by
    rw [precedes]
    exact acyclic_linksTo distinct acyclic
  refine ⟨doc.chained r, expand_eq_chained dataOnly distinct room legacy plain, noCycle, ?_⟩
  have ids := (ofDocument_chained dataOnly nodeIds linkIds room).1
  have placing := (Graph.ofDocument (doc.chained r)).executionOrder_placing (ids ▸ nodeIds)
  rw [ids] at placing
  have passing := (nodeIds_of_outline (chained_outline dataOnly distinct room)).2 r
  rw [passing]
  refine eq_of_isChain (fun id step => noCycle id (.single step)) ?_ ?_ ((placing.pairwise noCycle nodeIds).filter _)
  · refine (isChain_chainLinks doc.nextLinkId (doc.flowOrder r)).imp fun a b follows => ?_
    rw [precedes]
    exact .inr follows
  · exact ((placing.perm nodeIds).filter _).trans (flowOrder_perm distinct).symm

-- The loader comes last in the document, and its reroute stands behind the node that it feeds.
def relayed : Document :=
  let data (id : LinkId) (origin target : Int64) (slot : Word) : Link :=
    ⟨id, .number origin, 0, .number target, slot, "IMAGE"⟩
  { empty with
    nodes := [.plain (.number 9) "Blend", .plain (.number 5) "Reroute", .plain (.number 2) "Blur",
      .plain (.number 7) "Loader"]
    links := [data 1 7 5 0, data 2 5 9 0, data 3 2 9 1] }

theorem executionOrder_expand_relayed :
    relayed.DataOnly ∧ Acyclic relayed.Feeds ∧ ∃ runtime, relayed.expand .standard = .ok runtime ∧
      Acyclic (Graph.ofDocument runtime).Precedes ∧
      ((Graph.ofDocument runtime).executionOrder.filter fun id => !(runtime.passThroughIds .standard).contains id) =
        relayed.flowOrder .standard := by
  have dataOnly : relayed.DataOnly := ⟨by decide, by decide⟩
  have acyclic : Acyclic relayed.Feeds :=
    acyclic_feeds_of_rank ([.number 7, .number 5, .number 2, .number 9].idxOf ·) (by decide)
  exact ⟨dataOnly, acyclic, executionOrder_expand .standard relayed rfl rfl dataOnly (by decide) (by decide)
    (by decide) acyclic⟩

end Document
end Patchbay
