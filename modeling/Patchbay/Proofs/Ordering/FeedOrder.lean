import Patchbay.Proofs.Ordering.Reach
import Patchbay.Proofs.Sequencing.Chain

/-!
Where the nodes of a document stand that is ordered by its data links. Whoever is fed stands behind all that feed
it, as long as it does not lie behind a circle; the circles and what lies behind them come last.
-/
set_option autoImplicit false

namespace Patchbay
namespace Document

/-- Data links lead from one node to another, with nothing but pass-through nodes in between. Neither of the two
is a pass-through node: those have no place in the order, and a circle of them holds nobody back. -/
structure Supplies (doc : Document) (r : Registry) (u v : NodeId) : Prop where
  source : u ∉ doc.passThroughIds r
  consumer : v ∉ doc.passThroughIds r
  chain : doc.Reaches r u v

variable {doc : Document} {r : Registry}

theorem Reaches.mem_nodeIds {u v : NodeId} (reaches : doc.Reaches r u v) : u ∈ doc.nodeIds ∧ v ∈ doc.nodeIds := by
  induction reaches with
  | direct link =>
    obtain ⟨_, _, _, _, _, origin, target⟩ := link
    exact ⟨origin, target⟩
  | through before passes link ih =>
    obtain ⟨_, _, _, _, _, _, target⟩ := link
    exact ⟨ih.1, target⟩

theorem Supplies.candidates {u v : NodeId} (supplies : doc.Supplies r u v) :
    u ∈ doc.orderCandidates r ∧ v ∈ doc.orderCandidates r := by
  obtain ⟨source, consumer⟩ := supplies.chain.mem_nodeIds
  exact ⟨mem_orderCandidates_iff.2 ⟨source, supplies.source⟩,
    mem_orderCandidates_iff.2 ⟨consumer, supplies.consumer⟩⟩

theorem mem_orderCandidates_of_behindCircle {id : NodeId} (behind : BehindCircle (doc.Supplies r) id) :
    id ∈ doc.orderCandidates r := by
  obtain ⟨_, _, last⟩ := behind.exists_feeder
  exact last.candidates.2

theorem flowOrder_placing_supplies (distinct : (doc.orderCandidates r).Nodup) :
    Placing (doc.Supplies r) (doc.orderCandidates r) (doc.flowOrder r) := by
  refine (doc.flowOrder_placing r distinct).congr fun u memberU v memberV => ?_
  rw [mem_reachableSuccessors_iff]
  constructor
  · rintro ⟨chain, consumer⟩
    exact ⟨(mem_orderCandidates_iff.1 memberU).2, consumer, chain⟩
  · exact fun supplies => ⟨supplies.chain, supplies.consumer⟩

/-- Every node is listed once, pass-through nodes apart. Behind all that feed it stands each node that no circle
feeds; those that a circle feeds stand at the end, as they stand in the document. -/
theorem flowOrder_behind (r : Registry) (doc : Document) (distinct : doc.nodeIds.Nodup) :
    (doc.flowOrder r).Nodup ∧
      (∀ id, id ∈ doc.flowOrder r ↔ id ∈ doc.nodeIds ∧ id ∉ doc.passThroughIds r) ∧
      (∀ u v, doc.Supplies r u v → ¬ BehindCircle (doc.Supplies r) v →
        (doc.flowOrder r).idxOf u < (doc.flowOrder r).idxOf v) ∧
      ∃ first last, doc.flowOrder r = first ++ last ∧ last.Sublist doc.nodeIds ∧
        ∀ id, id ∈ last ↔ BehindCircle (doc.Supplies r) id := by
  have candidates : (doc.orderCandidates r).Nodup := distinct.filter _
  obtain ⟨first, last, split, kept, behind, forward⟩ :=
    (flowOrder_placing_supplies candidates).exists_behind fun u v supplies => supplies.candidates
  refine ⟨flowOrder_nodup candidates, fun id => ?_, forward, first, last, split, kept.trans List.filter_sublist,
    fun id => ?_⟩
  · rw [(flowOrder_perm candidates).mem_iff, mem_orderCandidates_iff]
  · constructor
    · exact fun member => (behind id (kept.subset member)).1 member
    · exact fun late => (behind id (mem_orderCandidates_of_behindCircle late)).2 late

-- Two reroutes in a circle feed the first blur, by two links and by two ways; the second and the third blur feed each
-- other, and the saver stands behind them.
def whirled : Document :=
  let data (id : LinkId) (origin target : Int64) (slot : Word) : Link :=
    ⟨id, .number origin, 0, .number target, slot, "IMAGE"⟩
  { empty with
    nodes := [.plain (.number 8) "Save", .plain (.number 3) "Blur", .plain (.number 5) "Reroute",
      .plain (.number 2) "Blur", .plain (.number 6) "Reroute", .plain (.number 1) "Blur", .plain (.number 7) "Load"]
    links := [data 1 7 5 0, data 2 5 6 0, data 3 6 5 0, data 4 5 1 0, data 5 6 1 0, data 6 6 1 1, data 7 2 3 0,
      data 8 3 2 0, data 9 3 8 0] }

theorem flowOrder_behind_whirled : whirled.nodeIds.Nodup ∧
    (whirled.flowOrder .standard).Nodup ∧
      (∀ id, id ∈ whirled.flowOrder .standard ↔ id ∈ whirled.nodeIds ∧ id ∉ whirled.passThroughIds .standard) ∧
      (∀ u v, whirled.Supplies .standard u v → ¬ BehindCircle (whirled.Supplies .standard) v →
        (whirled.flowOrder .standard).idxOf u < (whirled.flowOrder .standard).idxOf v) ∧
      ∃ first last, whirled.flowOrder .standard = first ++ last ∧ last.Sublist whirled.nodeIds ∧
        ∀ id, id ∈ last ↔ BehindCircle (whirled.Supplies .standard) id :=
  ⟨by decide, flowOrder_behind .standard whirled (by decide)⟩

end Document
end Patchbay
