import Patchbay.Proofs.Sequencing.RoundTrip

/-!
What is known about a runtime document that was made from stored or legacy data.
-/
set_option autoImplicit false

namespace Patchbay
namespace Document

/-- A runtime document and the document that it was made from. -/
structure RuntimeOf (doc runtime : Document) : Prop where
  notCompact : runtime.hasCompactFlow = false
  lead : ∀ node ∈ runtime.nodes, node.flowSlotsLead = true
  again : runtime.stripped.materialize = .ok runtime
  outline : runtime.nodes.map (·.outline) = doc.nodes.map (·.outline)
  extra : runtime.extra = doc.extra
  distinct : (doc.links.map (·.id)).Nodup → (∀ id ∈ runtime.usedIds, id < Word.top) →
    (runtime.links.map (·.id)).Nodup
  lastLinkId : (∀ id ∈ runtime.usedIds, id < Word.top) → 0 < runtime.nextLinkId →
    runtime.lastLinkId = some (runtime.nextLinkId.lower 1)

section Ran

variable {doc : Document} {w : Weave} {added : List Link}
  (ran : Weave.Ran doc.compactShifts doc.startWeave w added)

include ran in
theorem ran_outline : (doc.withWeave w).nodes.map (·.outline) = doc.nodes.map (·.outline) := by
  have views := congrArg (List.map (·.outline)) ran.reset
  simp only [startWeave, List.map_map] at views
  exact views

include ran in
theorem ran_distinct (distinct : (doc.links.map (·.id)).Nodup)
    (below : ∀ id ∈ (doc.withWeave w).usedIds, id < Word.top) : ((doc.withWeave w).links.map (·.id)).Nodup := by
  apply ran.distinct
  · simp only [startWeave, List.map_map]
    exact distinct
  · intro link member atTop
    have used : link.id ∈ (doc.withWeave w).usedIds := by
      rw [usedIds, linkIds, withWeave, ran.links]
      simp only [List.mem_append, List.mem_map]
      exact .inl (.inl ⟨link, .inr member, rfl⟩)
    have less := below link.id used
    rw [atTop] at less
    exact UInt64.lt_irrefl _ less

include ran in
theorem ran_lastLinkId (below : ∀ id ∈ (doc.withWeave w).usedIds, id < Word.top)
    (pos : 0 < (doc.withWeave w).nextLinkId) :
    (doc.withWeave w).lastLinkId = some ((doc.withWeave w).nextLinkId.lower 1) := by
  rw [ran_nextLinkId ran] at pos ⊢
  have stored : (doc.withWeave w).lastLinkId = some (max (doc.lastLinkId.getD 0) (w.next.lower 1)) := by
    rw [withWeave, lastLinkIdAfter, if_pos pos]
  have used : max (doc.lastLinkId.getD 0) (w.next.lower 1) ∈ (doc.withWeave w).usedIds := by
    rw [usedIds, stored]
    exact List.mem_append_right _ (List.mem_singleton_self _)
  have less := UInt64.lt_iff_toNat_lt.1 (below _ used)
  -- The old counter lies below the new one, unless it had come to the top.
  have old : (doc.lastLinkId.getD 0).toNat ≤ w.next.toNat - 1 := by
    cases last : doc.lastLinkId with
    | none => exact Nat.zero_le _
    | some id =>
      have above := last_above ran id last
      rw [Word.raise_le_iff] at above
      rw [last, Option.getD_some, Word.toNat_max, Word.toNat_top] at less
      rw [Option.getD_some]
      omega
  rw [stored, Option.some.injEq, ← UInt64.toNat_inj, Word.toNat_max, Word.toNat_lower]
  omega

end Ran

theorem runtimeOf_expand (r : Registry) (doc runtime : Document) (dataOnly : doc.DataOnly)
    (form : doc.hasCompactFlow = true ∨ doc.supportsFlow = false) (expanded : doc.expand r = .ok runtime) :
    doc.RuntimeOf runtime := by
  obtain ⟨start, begins, same⟩ := expand_from_compact doc r dataOnly form
  rw [same] at expanded
  obtain ⟨_, w, woven, rfl⟩ := (materialize_eq_ok_iff start runtime begins.compact).1 expanded
  obtain ⟨added, ran⟩ := ran_flowLinks begins.dataOnly woven
  exact {
    notCompact := ran_not_compact ran
    lead := ran_flowSlotsLead begins.dataOnly ran
    again := ran_materialize_stripped begins.dataOnly ran
    outline := (ran_outline ran).trans begins.outline
    extra := begins.extra
    distinct := fun distinct => ran_distinct ran (by rwa [begins.links])
    lastLinkId := ran_lastLinkId ran }

namespace RuntimeOf

variable {doc runtime : Document} (made : doc.RuntimeOf runtime)

include made in
theorem supportsFlow : runtime.supportsFlow = true := by
  obtain ⟨_, w, _, same⟩ := (materialize_eq_ok_iff runtime.stripped runtime rfl).1 made.again
  rw [same]
  rfl

include made in
theorem expand_self (r : Registry) : runtime.expand r = .ok runtime := by
  rw [expand_of_supportsFlow runtime r made.supportsFlow, materialize_of_not_compact runtime made.notCompact]

include made in
theorem compact_eq : runtime.compact = .ok runtime.stripped := by
  rw [compact_of_not_compact runtime made.notCompact, strip_eq_ok runtime made.lead]

include made in
theorem expand_stripped (r : Registry) : runtime.stripped.expand r = .ok runtime := by
  rw [expand_of_supportsFlow runtime.stripped r rfl, made.again]

end RuntimeOf

end Document
end Patchbay
