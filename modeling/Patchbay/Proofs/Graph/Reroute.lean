import Patchbay.Proofs.Graph.Wired

/-!
Links that change under their ids. A pass over distinct ids changes each of these links once, and all of them as
they were before the pass.
-/
set_option autoImplicit false

namespace Patchbay
namespace Graph

-- Puts what becomes of a link in its place, or takes it out if nothing does.
def reroute (g : Graph) (change : LinkId × (Link → Option Link)) : Graph :=
  match g.link? change.1 with
  | none => g
  | some link =>
    match change.2 link with
    | some moved => g.insertLink moved
    | none => g.removeLink change.1

def KeepsId (change : Link → Option Link) : Prop := ∀ link moved, change link = some moved → moved.id = link.id

section Reroute

variable {g : Graph} (distinct : (g.links.map (·.id)).Nodup)

include distinct in
theorem distinct_reroute (change : LinkId × (Link → Option Link)) : ((g.reroute change).links.map (·.id)).Nodup := by
  rw [reroute]
  cases g.link? change.1 with
  | none => exact distinct
  | some link =>
    cases result : change.2 link with
    | some moved =>
      simp only [result, insertLink_eq]
      exact putLink_distinct moved g.links distinct
    | none =>
      simp only [result, removeLink_eq]
      exact distinct.sublist (List.filter_sublist.map _)

include distinct in
theorem mem_reroute (change : LinkId × (Link → Option Link)) (keeps : KeepsId change.2) (other : Link) :
    other ∈ (g.reroute change).links ↔ (other ∈ g.links ∧ other.id ≠ change.1) ∨
      ∃ link ∈ g.links, link.id = change.1 ∧ change.2 link = some other := by
  rw [reroute]
  cases found : g.link? change.1 with
  | none =>
    have absent : ∀ link ∈ g.links, link.id ≠ change.1 := fun link member => by
      simpa using List.find?_eq_none.1 found link member
    constructor
    · exact fun member => .inl ⟨member, absent other member⟩
    · rintro (⟨member, _⟩ | ⟨link, member, same, _⟩)
      · exact member
      · exact absurd same (absent link member)
  | some link =>
    have member := mem_of_link? found
    have sameId := id_of_link? found
    have only : ∀ twin ∈ g.links, twin.id = change.1 → twin = link := fun twin inside same =>
      List.inj_on_of_nodup_map distinct inside member (same.trans sameId.symm)
    cases result : change.2 link with
    | some moved =>
      have movedId : moved.id = change.1 := (keeps link moved result).trans sameId
      simp only [result]
      rw [insertLink_eq, mem_putLink moved other g.links distinct, movedId]
      constructor
      · rintro (rfl | kept)
        · exact .inr ⟨link, member, sameId, result⟩
        · exact .inl kept
      · rintro (kept | ⟨twin, inside, same, made⟩)
        · exact .inr kept
        · rw [only twin inside same, result] at made
          exact .inl (Option.some_inj.1 made).symm
    | none =>
      simp only [result]
      rw [mem_removeLink]
      constructor
      · exact .inl
      · rintro (kept | ⟨twin, inside, same, made⟩)
        · exact kept
        · rw [only twin inside same, result] at made
          cases made

end Reroute

-- A link is one that was left alone or what became of one.
theorem mem_foldl_reroute (changes : List (LinkId × (Link → Option Link))) {g : Graph}
    (distinct : (g.links.map (·.id)).Nodup) (ids : (changes.map Prod.fst).Nodup)
    (keeps : ∀ change ∈ changes, KeepsId change.2) (other : Link) :
    other ∈ (changes.foldl reroute g).links ↔ (other ∈ g.links ∧ other.id ∉ changes.map Prod.fst) ∨
      ∃ change ∈ changes, ∃ link ∈ g.links, link.id = change.1 ∧ change.2 link = some other := by
  induction changes generalizing g with
  | nil => simp
  | cons first rest ih =>
    rw [List.map_cons, List.nodup_cons] at ids
    have first_keeps := keeps first List.mem_cons_self
    have step := mem_reroute distinct first first_keeps
    -- The later changes find the links of their ids as they were.
    have later : ∀ change ∈ rest, ∀ link, link.id = change.1 → (link ∈ (g.reroute first).links ↔ link ∈ g.links) := by
      intro change inside link same
      have apart : change.1 ≠ first.1 := by
        intro equal
        exact ids.1 (equal ▸ List.mem_map_of_mem inside)
      rw [step]
      constructor
      · rintro (⟨member, _⟩ | ⟨source, _, sourceId, made⟩)
        · exact member
        · exact absurd (same.symm.trans ((first_keeps source link made).trans sourceId)) apart
      · exact fun member => .inl ⟨member, fun equal => apart (same.symm.trans equal)⟩
    rw [List.foldl_cons, ih (distinct_reroute distinct first) ids.2 fun change inside =>
      keeps change (List.mem_cons_of_mem _ inside)]
    rw [step, List.map_cons, List.mem_cons, not_or]
    constructor
    · rintro (⟨⟨member, notFirst⟩ | ⟨link, member, same, made⟩, notLater⟩ | ⟨change, inside, link, member, same, made⟩)
      · exact .inl ⟨member, notFirst, notLater⟩
      · exact .inr ⟨first, List.mem_cons_self, link, member, same, made⟩
      · exact .inr ⟨change, List.mem_cons_of_mem _ inside, link, (later change inside link same).1 member, same, made⟩
    · rintro (⟨member, notFirst, notLater⟩ | ⟨change, inside, link, member, same, made⟩)
      · exact .inl ⟨.inl ⟨member, notFirst⟩, notLater⟩
      · rcases List.mem_cons.1 inside with rfl | inside
        · refine .inl ⟨.inr ⟨link, member, same, made⟩, ?_⟩
          rw [first_keeps link other made, same]
          exact ids.1
        · exact .inr ⟨change, inside, link, (later change inside link same).2 member, same, made⟩

end Graph
end Patchbay
