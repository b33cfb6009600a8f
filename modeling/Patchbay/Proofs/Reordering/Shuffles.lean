import Patchbay.Proofs.Sequencing.Migration

/-!
Documents that differ in the order of their nodes and links. Look-ups by id do not see the order, and stored
sequencing links are hung into the same slots under the same ids.
-/
set_option autoImplicit false

namespace Patchbay

section Lookups

variable {α κ : Type} [DecidableEq κ] (key : α → κ)

theorem find?_perm {a b : List α} (perm : a.Perm b) (distinct : (a.map key).Nodup) (wanted : κ) :
    a.find? (key · == wanted) = b.find? (key · == wanted) := by
  apply Option.ext
  intro x
  rw [find?_eq_some_iff_of_nodup key distinct, perm.mem_iff,
    find?_eq_some_iff_of_nodup key ((perm.map key).nodup_iff.1 distinct)]

end Lookups

section LastNodes

variable {a b : List Node} (perm : a.Perm b) (distinct : (a.map (·.id)).Nodup)

include perm distinct in
theorem findLast?_perm (id : NodeId) : findLast? a id = findLast? b id := by
  have reversed : a.reverse.Perm b.reverse := a.reverse_perm.trans (perm.trans b.reverse_perm.symm)
  refine find?_perm (·.id) reversed ?_ id
  rw [List.map_reverse]
  exact List.nodup_reverse.2 distinct

include perm distinct in
theorem shiftsOf_perm (measure : Node → Nat × Nat) : shiftsOf measure a = shiftsOf measure b := by
  funext id
  rw [shiftsOf, shiftsOf, findLast?_perm perm distinct]

include perm distinct in
theorem updateLast_perm (id : NodeId) (change : Node → Node) :
    (updateLast id change a).Perm (updateLast id change b) := by
  rw [updateLast_of_nodup id change a distinct, updateLast_of_nodup id change b ((perm.map _).nodup_iff.1 distinct)]
  exact perm.map _

end LastNodes

namespace Weave

/-- The same nodes and links in whichever order. -/
structure Shuffled (v w : Weave) : Prop where
  nodes : v.nodes.Perm w.nodes
  links : v.links.Perm w.links
  next : v.next = w.next

section Shuffled

variable {v w : Weave} (shuffled : v.Shuffled w) (distinct : (v.nodes.map (·.id)).Nodup)

include shuffled distinct in
theorem Shuffled.findLast? (id : NodeId) : findLast? v.nodes id = Patchbay.findLast? w.nodes id :=
  findLast?_perm shuffled.nodes distinct id

include shuffled distinct in
theorem Shuffled.fits {counts : NodeId → Nat × Nat} {flow : FlowLink} (fits : v.Fits counts flow) :
    w.Fits counts flow :=
  ⟨shuffled.findLast? distinct flow.origin ▸ fits.origin, shuffled.findLast? distinct flow.target ▸ fits.target,
    fits.originSlot, fits.targetSlot⟩

include shuffled distinct in
theorem Shuffled.blocked (flow : FlowLink) : v.blocked flow = w.blocked flow := by
  simp only [Weave.blocked, outputTaken, inputTaken, shuffled.findLast? distinct]

include shuffled in
theorem Shuffled.linkFor (flow : FlowLink) : v.linkFor flow = w.linkFor flow := by
  have held : v.holds flow.id = w.holds flow.id := shuffled.links.any_eq
  rw [Weave.linkFor, Weave.linkFor, held, shuffled.next]

include shuffled distinct in
theorem Shuffled.accept (flow : FlowLink) : (v.accept flow).Shuffled (w.accept flow) where
  nodes := by
    rw [accept_nodes, accept_nodes, shuffled.linkFor]
    refine updateLast_perm (updateLast_perm shuffled.nodes distinct _ _) ?_ _ _
    rw [updateLast_map_view (·.id)]
    · exact distinct
    · exact fun _ _ => rfl
  links := by
    rw [accept_links, accept_links, shuffled.linkFor]
    exact shuffled.links.append_right _
  next := by
    have held : v.holds flow.id = w.holds flow.id := shuffled.links.any_eq
    rw [Weave.accept, Weave.accept, held, shuffled.next]

end Shuffled

theorem Shuffled.run {counts : NodeId → Nat × Nat} {flows : List FlowLink} {v w final : Weave}
    (shuffled : v.Shuffled w) (distinct : (v.nodes.map (·.id)).Nodup)
    (run : flows.foldlM (Weave.add counts) v = .ok final) :
    ∃ other, flows.foldlM (Weave.add counts) w = .ok other ∧ final.Shuffled other := by
  induction flows generalizing v w with
  | nil =>
    cases run
    exact ⟨w, rfl, shuffled⟩
  | cons flow rest ih =>
    rw [List.foldlM_cons] at run
    cases step : v.add counts flow with
    | error cause =>
      rw [step] at run
      cases run
    | ok next =>
      rw [step] at run
      obtain ⟨fits, rfl⟩ := (add_eq_ok_iff counts v next flow).1 step
      rw [List.foldlM_cons, (add_eq_ok_iff counts w _ flow).2 ⟨shuffled.fits distinct fits, rfl⟩,
        ← shuffled.blocked distinct]
      by_cases taken : v.blocked flow
      · rw [if_pos taken] at run
        simp only [if_pos taken]
        exact ih shuffled distinct run
      · rw [if_neg taken] at run
        simp only [if_neg taken]
        exact ih (shuffled.accept distinct flow) (by rwa [accept_ids]) run

end Weave

namespace Document

/-- The documents differ in the order of their nodes and links and in nothing else. -/
structure Reordered (a b : Document) : Prop where
  nodes : a.nodes.Perm b.nodes
  links : a.links.Perm b.links
  rest : b = { a with nodes := b.nodes, links := b.links }

section Reordered

variable {a b : Document} (reordered : a.Reordered b)

include reordered in
theorem Reordered.symm : b.Reordered a where
  nodes := reordered.nodes.symm
  links := reordered.links.symm
  rest := by rw [reordered.rest]

include reordered in
theorem Reordered.flowLinks : a.flowLinks = b.flowLinks := by rw [reordered.rest]

include reordered in
theorem Reordered.lastLinkId : a.lastLinkId = b.lastLinkId := by rw [reordered.rest]

include reordered in
theorem Reordered.supportsFlow : a.supportsFlow = b.supportsFlow := by rw [reordered.rest]

include reordered in
theorem Reordered.extra : a.extra = b.extra := by rw [reordered.rest]

include reordered in
theorem Reordered.nodeIds : a.nodeIds.Perm b.nodeIds := reordered.nodes.map _

include reordered in
theorem Reordered.flowLinkList : a.flowLinkList = b.flowLinkList := by
  rw [Document.flowLinkList, Document.flowLinkList, reordered.flowLinks]

include reordered in
theorem Reordered.nextLinkId : a.nextLinkId = b.nextLinkId := by
  have used : (a.linkIds ++ a.lastLinkId.toList).Perm (b.linkIds ++ b.lastLinkId.toList) := by
    rw [linkIds, linkIds, reordered.flowLinkList, reordered.lastLinkId]
    exact ((reordered.links.map _).append_right _).append_right _
  have largest : (a.linkIds ++ a.lastLinkId.toList).max? = (b.linkIds ++ b.lastLinkId.toList).max? := by
    apply Option.ext
    intro id
    simp only [List.max?_eq_some_iff, used.mem_iff]
  rw [Document.nextLinkId, Document.nextLinkId, largest]

include reordered in
theorem Reordered.hasCompactFlow : a.hasCompactFlow = b.hasCompactFlow := by
  rw [Document.hasCompactFlow, Document.hasCompactFlow, reordered.flowLinks, reordered.nodes.any_eq]

include reordered in
theorem Reordered.needsChain : a.needsChain = b.needsChain := by
  rw [Document.needsChain, Document.needsChain, reordered.hasCompactFlow, reordered.supportsFlow,
    reordered.nodes.any_eq]

variable (distinct : a.nodeIds.Nodup)

include reordered distinct in
theorem Reordered.compactShifts : a.compactShifts = b.compactShifts := shiftsOf_perm reordered.nodes distinct _

include reordered distinct in
theorem Reordered.startWeave : a.startWeave.Shuffled b.startWeave where
  nodes := reordered.nodes.map _
  links := by
    simp only [Document.startWeave, reordered.compactShifts distinct]
    exact reordered.links.map _
  next := reordered.nextLinkId

include reordered distinct in
theorem Reordered.materialize {runtime : Document} (made : a.materialize = .ok runtime) :
    ∃ other, b.materialize = .ok other ∧ runtime.Reordered other := by
  cases compact : a.hasCompactFlow with
  | false =>
    rw [materialize_of_not_compact a compact] at made
    cases made
    exact ⟨b, materialize_of_not_compact b (reordered.hasCompactFlow ▸ compact), reordered⟩
  | true =>
    obtain ⟨unmixed, w, run, rfl⟩ := (materialize_eq_ok_iff a runtime compact).1 made
    have ids : (a.startWeave.nodes.map (·.id)).Nodup := by
      simp only [Document.startWeave, List.map_map]
      exact distinct
    obtain ⟨other, again, shuffled⟩ := (reordered.startWeave distinct).run ids run
    rw [reordered.flowLinkList, reordered.compactShifts distinct] at again
    refine ⟨b.withWeave other, ?_, shuffled.nodes, shuffled.links, ?_⟩
    · refine (materialize_eq_ok_iff b _ (reordered.hasCompactFlow ▸ compact)).2 ⟨?_, other, again, rfl⟩
      exact fun node member => unmixed node (reordered.nodes.mem_iff.2 member)
    · rw [withWeave, withWeave, shuffled.next, reordered.rest]

end Reordered

end Document
end Patchbay
