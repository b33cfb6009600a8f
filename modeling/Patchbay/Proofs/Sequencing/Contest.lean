import Patchbay.Proofs.Sequencing.Sewing
import Patchbay.Proofs.Sequencing.Successors
import Patchbay.Proofs.Sequencing.Woven

/-!
Stored sequencing links that compete for a slot. The runtime form keeps the one that is listed first, while
the table of successors shows the one with the smallest id. Main statement: `successors_expand`, which says
when the tables of both forms agree.
-/
set_option autoImplicit false

namespace Patchbay

namespace FlowLink

def ends (flow : FlowLink) : (NodeId × Word) × NodeId × Word :=
  ((flow.origin, flow.originSlot), (flow.target, flow.targetSlot))

instance decidableSharesSlot (a b : FlowLink) : Decidable (a.SharesSlot b) := inferInstanceAs (Decidable (_ ∨ _))

theorem sharesSlot_iff (a b : FlowLink) : a.SharesSlot b ↔ a.ends.1 = b.ends.1 ∨ a.ends.2 = b.ends.2 := by
  simp only [SharesSlot, ends, Prod.mk.injEq]

def admitNext (kept : List FlowLink) (flow : FlowLink) : List FlowLink :=
  if kept.any fun other => other.SharesSlot flow then kept else kept ++ [flow]

/-- First come, first served: a link is kept unless it shares a slot with an earlier one that is kept. -/
def admitted (flows : List FlowLink) : List FlowLink := flows.foldl admitNext []

section Admitted

variable {a b kept flows : List FlowLink}

theorem any_sharesSlot_congr (same : a.map (·.ends) = b.map (·.ends)) (flow : FlowLink) :
    (a.any fun other => other.SharesSlot flow) = b.any fun other => other.SharesSlot flow := by
  have byEnds : ∀ links : List FlowLink, (links.any fun other => other.SharesSlot flow) =
      (links.map (·.ends)).any fun other => other.1 = flow.ends.1 ∨ other.2 = flow.ends.2 := by
    intro links
    simp only [List.any_map, Function.comp_def, sharesSlot_iff]
  rw [byEnds, byEnds, same]

theorem mem_foldl_admitNext {flow : FlowLink} (member : flow ∈ flows.foldl admitNext kept) : flow ∈ kept ∨ flow ∈ flows := by
  induction flows generalizing kept with
  | nil => exact .inl member
  | cons next rest ih =>
    rcases ih member with early | later
    · rw [admitNext] at early
      split at early
      · exact .inl early
      · rcases List.mem_append.1 early with old | new
        · exact .inl old
        · exact .inr (List.mem_singleton.1 new ▸ List.mem_cons_self)
    · exact .inr (List.mem_cons_of_mem next later)

theorem mem_of_mem_admitted {flow : FlowLink} (member : flow ∈ admitted flows) : flow ∈ flows := by
  rcases mem_foldl_admitNext member with none | some
  · cases none
  · exact some

theorem pairwise_foldl_admitNext (apart : kept.Pairwise fun a b => ¬ a.SharesSlot b) :
    (flows.foldl admitNext kept).Pairwise fun a b => ¬ a.SharesSlot b := by
  induction flows generalizing kept with
  | nil => exact apart
  | cons flow rest ih =>
    refine ih ?_
    rw [admitNext]
    split
    · exact apart
    · next free =>
      rw [List.pairwise_append]
      refine ⟨apart, List.pairwise_singleton _ _, fun other member next single => ?_⟩
      rw [List.mem_singleton.1 single]
      intro shared
      exact free (List.any_eq_true.2 ⟨other, member, decide_eq_true shared⟩)

theorem admitted_pairwise : (admitted flows).Pairwise fun a b => ¬ a.SharesSlot b :=
  pairwise_foldl_admitNext List.Pairwise.nil

end Admitted

end FlowLink

namespace Document

open FlowLink (admitNext admitted)
open SuccessorTable (ofDocument flowLinksOf claimant?)

/-! ### The run keeps whoever comes first -/

section Run

variable {doc : Document} {done : List FlowLink} {next : LinkId}

theorem blocked_woven_iff {flow : FlowLink} (output : flow.originSlot.toNat < (doc.compactShifts flow.origin).2)
    (input : flow.targetSlot.toNat < (doc.compactShifts flow.target).1) :
    ((doc.woven done).countFrom next).blocked flow = true ↔ ∃ earlier ∈ done, earlier.SharesSlot flow := by
  have same : ((doc.woven done).countFrom next).blocked flow = (doc.woven done).blocked flow := rfl
  rw [same, Weave.blocked, Bool.or_eq_true, outputTaken_woven_iff output, inputTaken_woven_iff input,
    ← exists_or]
  simp only [FlowLink.SharesSlot, Prod.mk.injEq, ← and_or_left]

-- Under whatever id a link is hung in, from then on it stands among the links that are there.
theorem accept_countFrom (flow : FlowLink) : ((doc.woven done).countFrom next).accept flow =
    (doc.woven (done ++ [(((doc.woven done).countFrom next).linkFor flow).toFlowLink])).countFrom
      (((doc.woven done).countFrom next).accept flow).next := by
  have link := Weave.toLink_toFlowLink _ (((doc.woven done).countFrom next).linkFor_isFlow flow)
  have nodes := @hang_woven doc done (((doc.woven done).countFrom next).linkFor flow).toFlowLink
  rw [link] at nodes
  apply Weave.ext
  · rw [Weave.accept_nodes]
    exact nodes
  · rw [Weave.accept_links]
    simp only [Weave.countFrom, woven, List.map_append, List.map_cons, List.map_nil, List.append_assoc] at link ⊢
    rw [link]
  · rfl

theorem run_admits (flows kept : List FlowLink) (same : done.map (·.ends) = kept.map (·.ends)) (w : Weave)
    (run : flows.foldlM (Weave.add doc.compactShifts) ((doc.woven done).countFrom next) = .ok w) :
    ∃ joined last, w = (doc.woven joined).countFrom last ∧
      joined.map (·.ends) = (flows.foldl admitNext kept).map (·.ends) := by
  induction flows generalizing done kept next with
  | nil =>
    cases run
    exact ⟨done, next, rfl, same⟩
  | cons flow rest ih =>
    rw [List.foldlM_cons] at run
    cases step : ((doc.woven done).countFrom next).add doc.compactShifts flow with
    | error cause =>
      rw [step] at run
      cases run
    | ok after =>
      rw [step] at run
      obtain ⟨fits, rfl⟩ := (Weave.add_eq_ok_iff _ _ _ _).1 step
      have blocked : ((doc.woven done).countFrom next).blocked flow =
          kept.any fun other => other.SharesSlot flow := by
        rw [← FlowLink.any_sharesSlot_congr same flow, Bool.eq_iff_iff,
          blocked_woven_iff fits.originSlot fits.targetSlot]
        simp
      rw [List.foldl_cons]
      by_cases taken : ((doc.woven done).countFrom next).blocked flow = true
      · rw [if_pos taken] at run
        rw [admitNext, if_pos (blocked ▸ taken)]
        exact ih kept same run
      · rw [if_neg taken, accept_countFrom] at run
        rw [admitNext, if_neg (blocked ▸ taken)]
        refine ih (kept ++ [flow]) ?_ run
        rw [List.map_append, List.map_append, same]
        rfl

end Run

/-! ### The two tables -/

-- Sequencing links that are listed among the others get their slot numbers raised with them.
def strayFlows (doc : Document) : List FlowLink :=
  ((doc.links.filter (·.isFlow)).map (·.raiseSlots doc.compactShifts)).map (·.toFlowLink)

def displaysApart (doc : Document) : Prop :=
  ∀ a ∈ doc.nodes, ∀ b ∈ doc.nodes, a.id.display = b.id.display → a.id = b.id

instance decidableDisplaysApart (doc : Document) : Decidable doc.displaysApart :=
  inferInstanceAs (Decidable (∀ a ∈ doc.nodes, ∀ b ∈ doc.nodes, a.id.display = b.id.display → a.id = b.id))

section Tables

variable {doc runtime : Document} {r : Registry} {flows : List FlowLink}
variable (stored : doc.flowLinks = some flows) (run : doc.expand r = .ok runtime)

include stored run in
theorem expand_joins : (∀ flow ∈ flows, doc.startWeave.Fits doc.compactShifts flow) ∧
    ∃ joined last, runtime = doc.withWeave ((doc.woven joined).countFrom last) ∧
      joined.map (·.ends) = (admitted flows).map (·.ends) := by
  have compact : doc.hasCompactFlow = true := by rw [hasCompactFlow, stored]; rfl
  have direct : doc.expand r = doc.materialize := by
    rw [expand, needsChain, compact]
    simp
  rw [direct] at run
  obtain ⟨_, w, woven, rfl⟩ := (materialize_eq_ok_iff doc runtime compact).1 run
  have list : doc.flowLinkList = flows := by rw [flowLinkList, stored]; rfl
  rw [list] at woven
  refine ⟨(Weave.foldlM_add_ok_iff doc.compactShifts flows doc.startWeave).1 ⟨w, woven⟩, ?_⟩
  have start : (doc.woven []).countFrom doc.startWeave.next = doc.startWeave := by rw [woven_nil]; rfl
  rw [← start] at woven
  obtain ⟨joined, last, rfl, ends⟩ := run_admits flows [] rfl w woven
  exact ⟨joined, last, rfl, ends⟩

theorem flowLinksOf_withWeave (joined : List FlowLink) (last : LinkId) :
    flowLinksOf (doc.withWeave ((doc.woven joined).countFrom last)) =
      doc.strayFlows ++ joined.map (·.toLink.toFlowLink) := by
  have all : (joined.map (·.toLink)).filter (·.isFlow) = joined.map (·.toLink) := by
    rw [List.filter_eq_self]
    intro link member
    obtain ⟨flow, _, rfl⟩ := List.mem_map.1 member
    simp [FlowLink.toLink, Link.isFlow]
  have stray : doc.startWeave.links.filter (·.isFlow) =
      (doc.links.filter (·.isFlow)).map (·.raiseSlots doc.compactShifts) := by
    rw [startWeave, List.filter_map]
    rfl
  have links : flowLinksOf (doc.withWeave ((doc.woven joined).countFrom last)) =
      ((doc.woven joined).links.filter (·.isFlow)).map (·.toFlowLink) := rfl
  rw [links, woven, List.filter_append, all, stray, List.map_append, List.map_map (g := Link.toFlowLink)
    (f := FlowLink.toLink)]
  rfl

theorem displays_withWeave (joined : List FlowLink) (last : LinkId) :
    (doc.withWeave ((doc.woven joined).countFrom last)).nodes.map (·.id.display) =
      doc.nodes.map (·.id.display) := by
  refine map_mapLast (·.id.display) _ _ (·.id.display) (fun node => ?_) doc.nodes
  exact ⟨congrArg NodeId.display (hangAll_materialize_id joined node), rfl⟩

/-- Where no two links share an output, the claim on an output is decided without looking at ids. -/
theorem claimant?_of_single {joined : List FlowLink} (ends : joined.map (·.ends) = (admitted flows).map (·.ends))
    (apart : doc.displaysApart) (known : ∀ flow ∈ flows, ∃ node ∈ doc.nodes, node.id = flow.origin)
    (key : String) (slot : Nat) :
    (claimant? (joined.map (·.toLink.toFlowLink)) key slot).map (·.successor) =
      ((admitted flows).find? (·.claims key slot)).map (·.successor) := by
  have byEnds : ∀ links : List FlowLink, (links.find? (·.claims key slot)).map (·.successor) =
      ((links.map (·.ends)).find? fun e => e.1.1.display == key && e.1.2.toNat == slot).map
        fun e => (⟨e.2.1, e.2.2⟩ : FlowTarget) := by
    intro links
    rw [List.find?_map, Option.map_map]
    rfl
  have ends : (joined.map (·.toLink.toFlowLink)).map (·.ends) = (admitted flows).map (·.ends) := by
    rw [List.map_map]
    exact ends
  generalize joined.map (·.toLink.toFlowLink) = links at ends ⊢
  have origins : links.map (fun flow => flow.ends.1) = (admitted flows).map fun flow => flow.ends.1 := by
    have firsts := congrArg (List.map Prod.fst) ends
    rwa [List.map_map, List.map_map] at firsts
  have distinct : (links.map fun flow => flow.ends.1).Nodup := by
    rw [origins, List.Nodup, List.pairwise_map]
    exact FlowLink.admitted_pairwise.imp fun free same => free ((FlowLink.sharesSlot_iff _ _).2 (.inl same))
  have listed : ∀ flow ∈ links, ∃ node ∈ doc.nodes, node.id = flow.origin := by
    intro flow member
    have place : flow.ends ∈ (admitted flows).map (·.ends) := by
      rw [← ends]
      exact List.mem_map_of_mem member
    obtain ⟨other, kept, same⟩ := List.mem_map.1 place
    obtain ⟨node, inside, origin⟩ := known other (FlowLink.mem_of_mem_admitted kept)
    exact ⟨node, inside, origin.trans (congrArg (fun e => e.1.1) same)⟩
  have single : links.filter (·.claims key slot) = (links.find? (·.claims key slot)).toList := by
    apply filter_eq_find? _ _ links distinct
    intro a memberA b memberB hitA hitB
    obtain ⟨displayA, slotA⟩ := (a.claims_iff key slot).1 hitA
    obtain ⟨displayB, slotB⟩ := (b.claims_iff key slot).1 hitB
    obtain ⟨nodeA, insideA, originA⟩ := listed a memberA
    obtain ⟨nodeB, insideB, originB⟩ := listed b memberB
    have same : a.origin = b.origin := by
      rw [← originA, ← originB]
      apply apart nodeA insideA nodeB insideB
      rw [originA, originB, displayA, displayB]
    rw [FlowLink.ends, FlowLink.ends, same, UInt64.toNat_inj.1 (slotA.trans slotB.symm)]
  rw [claimant?, single, byEnds (admitted flows), ← ends, ← byEnds links]
  cases links.find? (·.claims key slot) <;> rfl

end Tables

/-! ### An output with two claims -/

def step (id : String) : Node :=
  { Node.plain (.name id) "Step" with flowInputs := some [.plain "FROM"], flowOutputs := some [.plain "TO"] }

-- Two links leave the one output of the first node, listed in this order.
def forked (first second : LinkId) : Document :=
  { empty with
    nodes := [step "a", step "b", step "c"]
    flowLinks := some [⟨first, .name "a", 0, .name "b", 0, []⟩, ⟨second, .name "a", 0, .name "c", 0, []⟩]
    supportsFlow := true }

end Document
end Patchbay
