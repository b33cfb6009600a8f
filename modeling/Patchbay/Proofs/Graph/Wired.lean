import Patchbay.Proofs.Graph.Loading
import Patchbay.Proofs.Graph.Slots

/-!
A wired graph: its link table and its slots tell the same story. Putting a link in and taking one out
keep a graph wired, provided that a link does not go to a slot that another link feeds.
-/
set_option autoImplicit false

namespace Patchbay

/-! ### The link table -/

theorem mem_putLink (link other : Link) (links : List Link) (distinct : (links.map (·.id)).Nodup) :
    other ∈ putLink link links ↔ other = link ∨ (other ∈ links ∧ other.id ≠ link.id) := by
  induction links with
  | nil => simp [putLink]
  | cons head rest ih =>
    rw [List.map_cons, List.nodup_cons] at distinct
    rw [putLink]
    by_cases same : head.id = link.id
    · have others : ∀ later ∈ rest, later.id ≠ link.id := by
        intro later member equal
        apply distinct.1
        rw [same, ← equal]
        exact List.mem_map_of_mem member
      rw [if_pos same, List.mem_cons, List.mem_cons]
      constructor
      · intro either
        rcases either with new | later
        · exact .inl new
        · exact .inr ⟨.inr later, others other later⟩
      · intro either
        rcases either with new | ⟨head | later, apart⟩
        · exact .inl new
        · exact absurd (head ▸ same) apart
        · exact .inr later
    · rw [if_neg same, List.mem_cons, List.mem_cons, ih distinct.2]
      constructor
      · intro either
        rcases either with head | new | ⟨later, apart⟩
        · exact .inr ⟨.inl head, head ▸ same⟩
        · exact .inl new
        · exact .inr ⟨.inr later, apart⟩
      · intro either
        rcases either with new | ⟨head | later, apart⟩
        · exact .inr (.inl new)
        · exact .inl head
        · exact .inr (.inr ⟨later, apart⟩)

theorem mem_ids_putLink (link : Link) (links : List Link) (id : LinkId)
    (member : id ∈ (putLink link links).map (·.id)) : id = link.id ∨ id ∈ links.map (·.id) := by
  induction links with
  | nil => simpa [putLink] using member
  | cons head rest ih =>
    rw [putLink] at member
    by_cases same : head.id = link.id
    · rw [if_pos same, List.map_cons, List.mem_cons] at member
      rcases member with new | later
      · exact .inl new
      · exact .inr (List.mem_cons_of_mem _ later)
    · rw [if_neg same, List.map_cons, List.mem_cons] at member
      rcases member with head | later
      · exact .inr (List.mem_cons.2 (.inl head))
      · exact (ih later).imp_right (List.mem_cons_of_mem _)

theorem find?_putLink (link : Link) (links : List Link) (id : LinkId) :
    (putLink link links).find? (·.id == id) = if link.id = id then some link else links.find? (·.id == id) := by
  induction links with
  | nil => by_cases same : link.id = id <;> simp [putLink, same]
  | cons first rest ih =>
    rw [putLink]
    by_cases led : first.id = link.id
    · rw [if_pos led]
      by_cases same : link.id = id <;> simp [led, same]
    · rw [if_neg led, List.find?_cons, ih, List.find?_cons]
      by_cases same : link.id = id
      · have other : (first.id == id) = false := by simpa [← same] using led
        simp [same, other]
      · simp [same]

theorem putLink_distinct (link : Link) (links : List Link) (distinct : (links.map (·.id)).Nodup) :
    ((putLink link links).map (·.id)).Nodup := by
  induction links with
  | nil => simp [putLink]
  | cons head rest ih =>
    have distinct' := distinct
    rw [List.map_cons, List.nodup_cons] at distinct
    rw [putLink]
    by_cases same : head.id = link.id
    · rw [if_pos same, List.map_cons, ← same]
      exact distinct'
    · rw [if_neg same, List.map_cons, List.nodup_cons]
      refine ⟨?_, ih distinct.2⟩
      intro member
      rcases mem_ids_putLink link rest head.id member with new | later
      · exact same new
      · exact distinct.1 later

namespace Graph

theorem id_of_link? {g : Graph} {id : LinkId} {link : Link} (found : g.link? id = some link) : link.id = id := by
  simpa using List.find?_some found

theorem mem_of_link? {g : Graph} {id : LinkId} {link : Link} (found : g.link? id = some link) : link ∈ g.links :=
  List.mem_of_find?_eq_some found

/-! ### Wired graphs -/

structure Wired (g : Graph) : Prop where
  nodeIds : g.nodeIds.Nodup
  linkIds : (g.links.map (·.id)).Nodup
  inputs : ∀ id slot input, g.inputAt? id slot = some input → ∀ held,
    input.link = some held ↔ ∃ link ∈ g.links, link.id = held ∧ link.entersAt id slot
  outputs : ∀ id slot output, g.outputAt? id slot = some output → output.linkIds.Nodup ∧ ∀ held,
    held ∈ output.linkIds ↔ ∃ link ∈ g.links, link.id = held ∧ link.leavesAt id slot

/-- The slots without a link of this id. -/
def release (g : Graph) (id : LinkId) : Graph :=
  match g.link? id with
  | some previous => g.detach previous
  | none => g

theorem detach_of_absent (slot : OutputSlot) (id : LinkId) (absent : id ∉ slot.linkIds) : slot.detach id = slot := by
  cases links : slot.links with
  | none =>
    rw [OutputSlot.detach, links]
    cases slot
    cases links
    rfl
  | some ids =>
    have kept : ids.filter (· ≠ id) = ids := by
      rw [List.filter_eq_self]
      intro other member
      have apart : other ≠ id := by
        intro same
        apply absent
        rw [OutputSlot.linkIds, links, ← same]
        exact member
      simpa using apart
    rw [OutputSlot.detach, links, Option.map_some, kept, ← links]

section Wired

variable {g : Graph} (wired : g.Wired)

include wired in
theorem Wired.link_unique {a b : Link} (memberA : a ∈ g.links) (memberB : b ∈ g.links) (same : a.id = b.id) :
    a = b := List.inj_on_of_nodup_map wired.linkIds memberA memberB same

include wired in
theorem Wired.input_absent {id : NodeId} {slot : Nat} {input : InputSlot} (found : g.inputAt? id slot = some input)
    {held : LinkId} (none : ∀ link ∈ g.links, link.id = held → ¬ link.entersAt id slot) :
    input.link ≠ some held := by
  intro holds
  obtain ⟨link, member, same, enters⟩ := (wired.inputs id slot input found held).1 holds
  exact none link member same enters

include wired in
theorem Wired.output_absent {id : NodeId} {slot : Nat} {output : OutputSlot}
    (found : g.outputAt? id slot = some output) {held : LinkId}
    (none : ∀ link ∈ g.links, link.id = held → ¬ link.leavesAt id slot) : held ∉ output.linkIds := by
  intro holds
  obtain ⟨link, member, same, leaves⟩ := ((wired.outputs id slot output found).2 held).1 holds
  exact none link member same leaves

include wired in
theorem Wired.inputAt?_release (held : LinkId) (id : NodeId) (slot : Nat) :
    (g.release held).inputAt? id slot = (g.inputAt? id slot).map (·.without held) := by
  cases found : g.inputAt? id slot with
  | none =>
    rw [release]
    cases g.link? held with
    | none => exact found
    | some previous =>
      simp only [detach_eq, inputAt?_rewire, found]
      rfl
  | some input =>
    rw [release, Option.map_some]
    cases linked : g.link? held with
    | none =>
      have absent : input.link ≠ some held := wired.input_absent found fun link member same _ => by
        have none := List.find?_eq_none.1 linked link member
        simp [same] at none
      rw [InputSlot.without, if_neg absent]
      exact found
    | some previous =>
      have sameId := id_of_link? linked
      simp only [detach_eq, inputAt?_rewire, found, Option.map_some, sameId]
      by_cases enters : previous.entersAt id slot
      · rw [if_pos enters]
      · have absent : input.link ≠ some held := wired.input_absent found fun link member same => by
          rw [wired.link_unique member (mem_of_link? linked) (same.trans sameId.symm)]
          exact enters
        rw [if_neg enters, InputSlot.without, if_neg absent]

include wired in
theorem Wired.outputAt?_release (held : LinkId) (id : NodeId) (slot : Nat) :
    (g.release held).outputAt? id slot = (g.outputAt? id slot).map (·.detach held) := by
  cases found : g.outputAt? id slot with
  | none =>
    rw [release]
    cases g.link? held with
    | none => exact found
    | some previous =>
      simp only [detach_eq, outputAt?_rewire, found]
      rfl
  | some output =>
    rw [release, Option.map_some]
    cases linked : g.link? held with
    | none =>
      have absent : held ∉ output.linkIds := wired.output_absent found fun link member same _ => by
        have none := List.find?_eq_none.1 linked link member
        simp [same] at none
      rw [detach_of_absent output held absent]
      exact found
    | some previous =>
      have sameId := id_of_link? linked
      simp only [detach_eq, outputAt?_rewire, found, Option.map_some, sameId]
      by_cases leaves : previous.leavesAt id slot
      · rw [if_pos leaves]
      · have absent : held ∉ output.linkIds := wired.output_absent found fun link member same => by
          rw [wired.link_unique member (mem_of_link? linked) (same.trans sameId.symm)]
          exact leaves
        rw [if_neg leaves, detach_of_absent output held absent]

end Wired

theorem roster_release (g : Graph) (id : LinkId) : (g.release id).roster = g.roster := by
  rw [release]
  cases g.link? id with
  | none => rfl
  | some previous => simp only [detach_eq, roster_rewire]

theorem link_without (slot : InputSlot) (id held : LinkId) :
    (slot.without id).link = some held ↔ slot.link = some held ∧ held ≠ id := by
  rw [InputSlot.without]
  by_cases here : slot.link = some id
  · rw [if_pos here]
    simp [InputSlot.unlinked, here, eq_comm]
  · rw [if_neg here]
    constructor
    · intro link
      exact ⟨link, fun same => here (same ▸ link)⟩
    · exact And.left

theorem mem_detach (slot : OutputSlot) (id held : LinkId) :
    held ∈ (slot.detach id).linkIds ↔ held ∈ slot.linkIds ∧ held ≠ id := by
  rw [OutputSlot.linkIds_detach, List.mem_filter, decide_eq_true_eq]

-- A link that is not taken out still says of a slot what it said before.
theorem exists_kept (links : List Link) (id held : LinkId) (there : Link → Prop) :
    ((∃ link ∈ links, link.id = held ∧ there link) ∧ held ≠ id) ↔
      ∃ link, (link ∈ links ∧ link.id ≠ id) ∧ link.id = held ∧ there link := by
  constructor
  · rintro ⟨⟨link, member, same, here⟩, apart⟩
    exact ⟨link, ⟨member, same ▸ apart⟩, same, here⟩
  · rintro ⟨link, ⟨member, apart⟩, same, here⟩
    exact ⟨⟨link, member, same, here⟩, same ▸ apart⟩

/-! ### Taking a link out -/

theorem removeLink_eq (g : Graph) (id : LinkId) :
    g.removeLink id = { g.release id with links := g.links.filter (·.id ≠ id) } := by
  rw [removeLink, release]
  cases found : g.link? id with
  | none =>
    have kept : g.links.filter (·.id ≠ id) = g.links := by
      rw [List.filter_eq_self]
      intro link member
      simpa using List.find?_eq_none.1 found link member
    rw [kept]
  | some link => rfl

theorem roster_removeLink (g : Graph) (id : LinkId) : (g.removeLink id).roster = g.roster := by
  rw [removeLink_eq]
  exact g.roster_release id

theorem mem_removeLink (g : Graph) (id : LinkId) (link : Link) :
    link ∈ (g.removeLink id).links ↔ link ∈ g.links ∧ link.id ≠ id := by
  rw [removeLink_eq]
  simp

theorem Wired.removeLink {g : Graph} (wired : g.Wired) (id : LinkId) : (g.removeLink id).Wired := by
  have inputAt : ∀ x slot, (g.removeLink id).inputAt? x slot = (g.inputAt? x slot).map (·.without id) := by
    intro x slot
    rw [removeLink_eq]
    exact wired.inputAt?_release id x slot
  have outputAt : ∀ x slot, (g.removeLink id).outputAt? x slot = (g.outputAt? x slot).map (·.detach id) := by
    intro x slot
    rw [removeLink_eq]
    exact wired.outputAt?_release id x slot
  constructor
  · rw [nodeIds_eq_roster, roster_removeLink, ← nodeIds_eq_roster]
    exact wired.nodeIds
  · rw [removeLink_eq]
    exact wired.linkIds.sublist (List.filter_sublist.map _)
  · intro x slot input found held
    rw [inputAt] at found
    obtain ⟨old, foundOld, rfl⟩ := Option.map_eq_some_iff.1 found
    rw [link_without, wired.inputs x slot old foundOld held]
    simp only [mem_removeLink]
    exact exists_kept g.links id held (·.entersAt x slot)
  · intro x slot output found
    rw [outputAt] at found
    obtain ⟨old, foundOld, rfl⟩ := Option.map_eq_some_iff.1 found
    obtain ⟨distinct, holds⟩ := wired.outputs x slot old foundOld
    refine ⟨?_, ?_⟩
    · rw [OutputSlot.linkIds_detach]
      exact distinct.filter _
    · intro held
      rw [mem_detach, holds]
      simp only [mem_removeLink]
      exact exists_kept g.links id held (·.leavesAt x slot)

/-! ### Putting a link in -/

theorem insertLink_eq (g : Graph) (link : Link) :
    g.insertLink link =
      { (g.release link.id).rewire link (.holding link.id) (.attachOnce link.id) with
        links := putLink link g.links
        nextLinkId := max g.nextLinkId (link.id.raise 1) } := by
  rw [insertLink, release]
  cases g.link? link.id with
  | none => simp only [attach_eq]; rfl
  | some previous => simp only [attach_eq]; rfl

theorem roster_insertLink (g : Graph) (link : Link) : (g.insertLink link).roster = g.roster := by
  rw [insertLink_eq]
  refine ((g.release link.id).roster_rewire link _ _).trans ?_
  exact g.roster_release link.id

theorem linkIds_attachOnce_detach (slot : OutputSlot) (id : LinkId) :
    ((slot.detach id).attachOnce id).linkIds = slot.linkIds.filter (· ≠ id) ++ [id] := by
  have absent : (slot.detach id).linkIds.contains id = false := by
    rw [OutputSlot.linkIds_detach]
    simp
  rw [OutputSlot.attachOnce, absent, if_neg Bool.false_ne_true, OutputSlot.linkIds_attach,
    OutputSlot.linkIds_detach]

-- No link of another id goes to the slot that the link is for.
def ClearFor (g : Graph) (link : Link) : Prop :=
  ∀ slot input, g.inputAt? link.target slot = some input → link.targetSlot.toNat = slot →
    ∀ other ∈ g.links, other.entersAt link.target slot → other.id = link.id

theorem Wired.mem_insertLink {g : Graph} (wired : g.Wired) (link other : Link) :
    other ∈ (g.insertLink link).links ↔ other = link ∨ (other ∈ g.links ∧ other.id ≠ link.id) := by
  rw [insertLink_eq]
  exact mem_putLink link other g.links wired.linkIds

theorem Wired.inputAt?_insertLink {g : Graph} (wired : g.Wired) (link : Link) (id : NodeId) (slot : Nat) :
    (g.insertLink link).inputAt? id slot = (g.inputAt? id slot).map fun input =>
      if link.entersAt id slot then (input.without link.id).holding link.id else input.without link.id := by
  rw [insertLink_eq]
  refine ((g.release link.id).inputAt?_rewire link _ _ id slot).trans ?_
  rw [wired.inputAt?_release, Option.map_map]
  rfl

theorem Wired.outputAt?_insertLink {g : Graph} (wired : g.Wired) (link : Link) (id : NodeId) (slot : Nat) :
    (g.insertLink link).outputAt? id slot = (g.outputAt? id slot).map fun output =>
      if link.leavesAt id slot then (output.detach link.id).attachOnce link.id else output.detach link.id := by
  rw [insertLink_eq]
  refine ((g.release link.id).outputAt?_rewire link _ _ id slot).trans ?_
  rw [wired.outputAt?_release, Option.map_map]
  rfl

theorem Wired.insertLink {g : Graph} (wired : g.Wired) (link : Link) (clear : g.ClearFor link) :
    (g.insertLink link).Wired := by
  have links := wired.mem_insertLink link
  constructor
  · rw [nodeIds_eq_roster, roster_insertLink, ← nodeIds_eq_roster]
    exact wired.nodeIds
  · rw [insertLink_eq]
    exact putLink_distinct link g.links wired.linkIds
  · intro x slot input found held
    rw [wired.inputAt?_insertLink] at found
    obtain ⟨old, foundOld, rfl⟩ := Option.map_eq_some_iff.1 found
    simp only [links]
    by_cases enters : link.entersAt x slot
    · rw [if_pos enters]
      constructor
      · intro here
        have same : link.id = held := by simpa [InputSlot.holding] using here
        exact ⟨link, .inl rfl, same, enters⟩
      · rintro ⟨other, rfl | ⟨member, apart⟩, same, otherEnters⟩
        · rw [← same]
          rfl
        · obtain ⟨rfl, here⟩ := enters
          exact absurd (clear slot old foundOld here other member otherEnters) apart
    · rw [if_neg enters, link_without, wired.inputs x slot old foundOld held,
        exists_kept g.links link.id held (·.entersAt x slot)]
      constructor
      · rintro ⟨other, kept, same, otherEnters⟩
        exact ⟨other, .inr kept, same, otherEnters⟩
      · rintro ⟨other, rfl | kept, same, otherEnters⟩
        · exact absurd otherEnters enters
        · exact ⟨other, kept, same, otherEnters⟩
  · intro x slot output found
    rw [wired.outputAt?_insertLink] at found
    obtain ⟨old, foundOld, rfl⟩ := Option.map_eq_some_iff.1 found
    obtain ⟨distinct, holds⟩ := wired.outputs x slot old foundOld
    by_cases leaves : link.leavesAt x slot
    · rw [if_pos leaves, linkIds_attachOnce_detach]
      refine ⟨?_, ?_⟩
      · rw [List.nodup_append]
        refine ⟨distinct.filter _, List.nodup_singleton _, ?_⟩
        intro a memberA b memberB same
        rw [same, List.mem_singleton.1 memberB] at memberA
        simp at memberA
      · intro held
        simp only [links]
        rw [List.mem_append, List.mem_singleton, ← OutputSlot.linkIds_detach, mem_detach, holds,
          exists_kept g.links link.id held (·.leavesAt x slot)]
        constructor
        · rintro (⟨other, kept, same, otherLeaves⟩ | rfl)
          · exact ⟨other, .inr kept, same, otherLeaves⟩
          · exact ⟨link, .inl rfl, rfl, leaves⟩
        · rintro ⟨other, rfl | kept, same, otherLeaves⟩
          · exact .inr same.symm
          · exact .inl ⟨other, kept, same, otherLeaves⟩
    · rw [if_neg leaves]
      refine ⟨?_, ?_⟩
      · rw [OutputSlot.linkIds_detach]
        exact distinct.filter _
      · intro held
        simp only [links]
        rw [mem_detach, holds, exists_kept g.links link.id held (·.leavesAt x slot)]
        constructor
        · rintro ⟨other, kept, same, otherLeaves⟩
          exact ⟨other, .inr kept, same, otherLeaves⟩
        · rintro ⟨other, rfl | kept, same, otherLeaves⟩
          · exact absurd otherLeaves leaves
          · exact ⟨other, kept, same, otherLeaves⟩

end Graph
end Patchbay
