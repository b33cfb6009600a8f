import Patchbay.Proofs.Sequencing.Successors
import Patchbay.Sequencing.Order

/-!
The table of successors, told row by row from the sequencing links alone. The order in which the links are
listed shows only where two of them have the same id.
-/
set_option autoImplicit false

namespace Patchbay
namespace SuccessorTable

-- Of the links that claim an output this one has the smallest id, and it is the first one with that id.
def Wins (flows : List FlowLink) (key : String) (slot : Nat) (flow : FlowLink) : Prop :=
  flow.claims key slot = true ∧ ∃ before after, flows = before ++ flow :: after ∧
    (∀ other ∈ before, other.claims key slot = true → flow.id < other.id) ∧
      ∀ other ∈ after, other.claims key slot = true → flow.id ≤ other.id

-- What an output shows.
inductive Shows (flows : List FlowLink) (key : String) (slot : Nat) : Option FlowTarget → Prop where
  | gap (unclaimed : ∀ flow ∈ flows, ¬ flow.claims key slot = true) : Shows flows key slot none
  | follower (flow : FlowLink) (wins : Wins flows key slot flow) : Shows flows key slot (some flow.successor)

-- What stands under a displayed id that has a row.
inductive Tabulates (flows : List FlowLink) (key : String) : SuccessorRow → Prop where
  | unlinked (unclaimed : ∀ flow ∈ flows, flow.origin.display ≠ key) : Tabulates flows key none
  | linked (row : List (Option FlowTarget)) (last : FlowLink) (member : last ∈ flows)
      (same : last.origin.display = key)
      (largest : ∀ flow ∈ flows, flow.origin.display = key → flow.originSlot ≤ last.originSlot)
      (length : row.length = last.originSlot.toNat + 1)
      (entries : ∀ slot (inside : slot < row.length), Shows flows key slot row[slot]) :
      Tabulates flows key (some row)

variable {flows others : List FlowLink} {key : String} {slot : Nat}

/-! ### The winner of an output -/

theorem Wins.mem {flow : FlowLink} (wins : Wins flows key slot flow) : flow ∈ flows := by
  obtain ⟨_, before, after, split, _, _⟩ := wins
  rw [split]
  exact List.mem_append_right _ List.mem_cons_self

theorem Wins.le {flow other : FlowLink} (wins : Wins flows key slot flow) (member : other ∈ flows)
    (claims : other.claims key slot = true) : flow.id ≤ other.id := by
  obtain ⟨_, before, after, split, earlier, later⟩ := wins
  rw [split, List.mem_append, List.mem_cons] at member
  rcases member with inFront | rfl | behind
  · exact UInt64.le_of_lt (earlier other inFront claims)
  · exact UInt64.le_refl _
  · exact later other behind claims

theorem Wins.cons {head flow : FlowLink} (wins : Wins flows key slot flow)
    (above : head.claims key slot = true → flow.id < head.id) : Wins (head :: flows) key slot flow := by
  obtain ⟨claims, before, after, split, earlier, later⟩ := wins
  refine ⟨claims, head :: before, after, by rw [split, List.cons_append], ?_, later⟩
  rw [List.forall_mem_cons]
  exact ⟨above, earlier⟩

theorem wins_head {head : FlowLink} (claims : head.claims key slot = true)
    (least : ∀ other ∈ flows, other.claims key slot = true → head.id ≤ other.id) :
    Wins (head :: flows) key slot head :=
  ⟨claims, [], flows, rfl, fun _ none => (nomatch none), least⟩

theorem claimant?_eq_none_iff : claimant? flows key slot = none ↔ ∀ flow ∈ flows, ¬ flow.claims key slot = true := by
  rw [claimant?, List.argmin_eq_none, List.filter_eq_nil_iff]

theorem wins_of_claimant? {flow : FlowLink} (found : claimant? flows key slot = some flow) :
    Wins flows key slot flow := by
  induction flows generalizing flow with
  | nil => cases found
  | cons head rest ih =>
    by_cases hit : head.claims key slot = true
    · have kept : (head :: rest).filter (·.claims key slot) = head :: rest.filter (·.claims key slot) :=
        List.filter_cons_of_pos hit
      rw [claimant?, kept, List.argmin_cons, ← claimant?] at found
      cases best : claimant? rest key slot with
      | none =>
        rw [best] at found
        cases found
        exact wins_head hit fun other member claims => absurd claims (claimant?_eq_none_iff.1 best other member)
      | some winner =>
        simp only [best] at found
        by_cases less : winner.id.toNat < head.id.toNat
        · rw [if_pos less] at found
          cases found
          exact (ih best).cons fun _ => UInt64.lt_iff_toNat_lt.2 less
        · rw [if_neg less] at found
          cases found
          have le : head.id ≤ winner.id := UInt64.le_iff_toNat_le.2 (Nat.le_of_not_lt less)
          exact wins_head hit fun other member claims => UInt64.le_trans le ((ih best).le member claims)
    · have dropped : (head :: rest).filter (·.claims key slot) = rest.filter (·.claims key slot) :=
        List.filter_cons_of_neg hit
      rw [claimant?, dropped, ← claimant?] at found
      exact (ih found).cons fun claims => absurd claims hit

theorem Wins.unique {a b : FlowLink} (winsA : Wins flows key slot a) (winsB : Wins flows key slot b) : a = b := by
  have least : a.id ≤ b.id := winsA.le winsB.mem winsB.1
  have leastB : b.id ≤ a.id := winsB.le winsA.mem winsA.1
  obtain ⟨claimsA, beforeA, afterA, splitA, earlierA, _⟩ := winsA
  obtain ⟨claimsB, beforeB, afterB, splitB, earlierB, _⟩ := winsB
  -- If one of them stood in front of the other, the other one would have the smaller id.
  rcases List.append_eq_append_iff.1 (splitA.symm.trans splitB) with ⟨between, _, rest⟩ | ⟨between, _, rest⟩
  · cases between with
    | nil => exact (List.cons.inj rest).1
    | cons first _ =>
      have inFront : a ∈ beforeB := by simp_all
      exact absurd (UInt64.lt_of_lt_of_le (earlierB a inFront claimsA) least) (UInt64.lt_irrefl _)
  · cases between with
    | nil => exact (List.cons.inj rest).1.symm
    | cons first _ =>
      have inFront : b ∈ beforeA := by simp_all
      exact absurd (UInt64.lt_of_lt_of_le (earlierA b inFront claimsB) leastB) (UInt64.lt_irrefl _)

theorem Wins.perm {flow : FlowLink} (wins : Wins flows key slot flow) (shuffled : flows.Perm others)
    (distinct : (flows.map (·.id)).Nodup) : Wins others key slot flow := by
  obtain ⟨before, after, split⟩ := List.append_of_mem (shuffled.subset wins.mem)
  have ids : (others.map (·.id)).Nodup := (shuffled.map _).nodup_iff.1 distinct
  rw [split, List.map_append, List.map_cons, List.nodup_append] at ids
  have least : ∀ other ∈ others, other.claims key slot = true → flow.id ≤ other.id :=
    fun other member claims => wins.le (shuffled.symm.subset member) claims
  rw [split] at least
  refine ⟨wins.1, before, after, split, fun other member claims => ?_, fun other member claims => ?_⟩
  · have apart := ids.2.2 other.id (List.mem_map_of_mem member) flow.id List.mem_cons_self
    exact UInt64.lt_of_le_of_ne (least other (List.mem_append_left _ member) claims) apart.symm
  · exact least other (List.mem_append_right _ (List.mem_cons_of_mem _ member)) claims

/-! ### Outputs and rows -/

theorem shows_claimant? (flows : List FlowLink) (key : String) (slot : Nat) :
    Shows flows key slot ((claimant? flows key slot).map (·.successor)) := by
  cases found : claimant? flows key slot with
  | none => exact .gap (claimant?_eq_none_iff.1 found)
  | some flow => exact .follower flow (wins_of_claimant? found)

theorem Shows.unique {a b : Option FlowTarget} (showsA : Shows flows key slot a) (showsB : Shows flows key slot b) :
    a = b := by
  cases showsA with
  | gap unclaimed =>
    cases showsB with
    | gap _ => rfl
    | follower flow wins => exact absurd wins.1 (unclaimed flow wins.mem)
  | follower flow wins =>
    cases showsB with
    | gap unclaimed => exact absurd wins.1 (unclaimed flow wins.mem)
    | follower other winsToo => rw [wins.unique winsToo]

theorem Shows.perm {target : Option FlowTarget} (entry : Shows flows key slot target) (shuffled : flows.Perm others)
    (distinct : (flows.map (·.id)).Nodup) : Shows others key slot target := by
  cases entry with
  | gap unclaimed => exact .gap fun flow member => unclaimed flow (shuffled.symm.subset member)
  | follower flow wins => exact .follower flow (wins.perm shuffled distinct)

theorem Tabulates.unique {a b : SuccessorRow} (ofA : Tabulates flows key a) (ofB : Tabulates flows key b) : a = b := by
  cases ofA with
  | unlinked unclaimed =>
    cases ofB with
    | unlinked _ => rfl
    | linked row last member same => exact absurd same (unclaimed last member)
  | linked rowA lastA memberA sameA largestA lengthA entriesA =>
    cases ofB with
    | unlinked unclaimed => exact absurd sameA (unclaimed lastA memberA)
    | linked rowB lastB memberB sameB largestB lengthB entriesB =>
      have slots : lastA.originSlot = lastB.originSlot :=
        UInt64.le_antisymm (largestB lastA memberA sameA) (largestA lastB memberB sameB)
      have lengths : rowA.length = rowB.length := by rw [lengthA, lengthB, slots]
      congr 1
      apply List.ext_getElem lengths
      intro slot insideA insideB
      exact (entriesA slot insideA).unique (entriesB slot insideB)

theorem Tabulates.perm {entry : SuccessorRow} (tabulates : Tabulates flows key entry) (shuffled : flows.Perm others)
    (distinct : (flows.map (·.id)).Nodup) : Tabulates others key entry := by
  cases tabulates with
  | unlinked unclaimed => exact .unlinked fun flow member => unclaimed flow (shuffled.symm.subset member)
  | linked row last member same largest length entries =>
    exact .linked row last (shuffled.subset member) same
      (fun flow inside => largest flow (shuffled.symm.subset inside)) length
      fun slot inside => (entries slot inside).perm shuffled distinct

/-! ### The table -/

section OfDocument

variable (doc : Document) (key : String)

theorem exists_shown_iff (slot : Nat) : ((ofDocument doc).shown? key slot).isSome ↔
    ∃ flow ∈ flowLinksOf doc, flow.origin.display = key ∧ flow.originSlot.toNat = slot := by
  rw [shown?_ofDocument, Option.isSome_map, isSome_claimant?_iff]

theorem linked_iff : ((ofDocument doc).rows.get? key).join.isSome ↔
    ∃ flow ∈ flowLinksOf doc, flow.origin.display = key := by
  simp only [isSome_join_ofDocument_iff, exists_shown_iff]
  constructor
  · rintro ⟨_, flow, member, same, _⟩
    exact ⟨flow, member, same⟩
  · rintro ⟨flow, member, same⟩
    exact ⟨_, flow, member, same, rfl⟩

theorem listed_iff : ((ofDocument doc).rows.get? key).isSome ↔
    (∃ node ∈ doc.nodes, node.id.display = key) ∨ ∃ flow ∈ flowLinksOf doc, flow.origin.display = key := by
  rw [isSome_ofDocument_iff, linked_iff]

theorem lt_length_row_iff (slot : Nat) : slot < ((ofDocument doc).row key).length ↔
    ∃ flow ∈ flowLinksOf doc, flow.origin.display = key ∧ slot ≤ flow.originSlot.toNat := by
  simp only [lt_row_ofDocument_iff, exists_shown_iff]
  constructor
  · rintro ⟨_, le, flow, member, same, rfl⟩
    exact ⟨flow, member, same, le⟩
  · rintro ⟨flow, member, same, le⟩
    exact ⟨_, le, flow, member, same, rfl⟩

theorem tabulates_row (linked : ∃ flow ∈ flowLinksOf doc, flow.origin.display = key) :
    Tabulates (flowLinksOf doc) key (some ((ofDocument doc).row key)) := by
  obtain ⟨flow, member, same⟩ := linked
  have some : 0 < ((ofDocument doc).row key).length :=
    (lt_length_row_iff doc key 0).2 ⟨flow, member, same, Nat.zero_le _⟩
  obtain ⟨last, inside, sameLast, reaches⟩ := (lt_length_row_iff doc key _).1 (Nat.sub_one_lt_of_lt some)
  have within : ∀ other ∈ flowLinksOf doc, other.origin.display = key →
      other.originSlot.toNat < ((ofDocument doc).row key).length :=
    fun other listed sameOther => (lt_length_row_iff doc key _).2 ⟨other, listed, sameOther, Nat.le_refl _⟩
  have lastWithin := within last inside sameLast
  refine .linked _ last inside sameLast (fun other listed sameOther => ?_) (by omega) fun slot bound => ?_
  · have otherWithin := within other listed sameOther
    exact UInt64.le_iff_toNat_le.2 (by omega)
  · have entry := shows_claimant? (flowLinksOf doc) key slot
    rw [← shown?_ofDocument, shown?, List.getElem?_eq_getElem bound] at entry
    exact entry

theorem tabulates_of_get? {entry : SuccessorRow} (found : (ofDocument doc).rows.get? key = some entry) :
    Tabulates (flowLinksOf doc) key entry := by
  have linked := linked_iff doc key
  rw [found] at linked
  cases entry with
  | none =>
    refine .unlinked fun flow member same => ?_
    exact Bool.false_ne_true (linked.2 ⟨flow, member, same⟩)
  | some row =>
    have own : (ofDocument doc).row key = row := by
      rw [SuccessorTable.row, found]
      rfl
    rw [← own]
    exact tabulates_row doc key (linked.1 rfl)

theorem get?_ofDocument_iff (entry : SuccessorRow) : (ofDocument doc).rows.get? key = some entry ↔
    ((∃ node ∈ doc.nodes, node.id.display = key) ∨ ∃ flow ∈ flowLinksOf doc, flow.origin.display = key) ∧
      Tabulates (flowLinksOf doc) key entry := by
  rw [← listed_iff]
  constructor
  · intro found
    refine ⟨by rw [found]; rfl, tabulates_of_get? doc key found⟩
  · rintro ⟨listed, tabulates⟩
    obtain ⟨other, found⟩ := Option.isSome_iff_exists.1 listed
    rw [found, tabulates.unique (tabulates_of_get? doc key found)]

end OfDocument

theorem ofDocument_perm {a b : Document} (nodes : ∀ id, id ∈ a.nodeIds ↔ id ∈ b.nodeIds)
    (shuffled : (flowLinksOf a).Perm (flowLinksOf b)) (distinct : ((flowLinksOf a).map (·.id)).Nodup) :
    ofDocument a = ofDocument b := by
  have displayed : ∀ (doc : Document) (key : String), (∃ node ∈ doc.nodes, node.id.display = key) ↔
      ∃ id ∈ doc.nodeIds, id.display = key := by
    intro doc key
    simp [Document.nodeIds]
  have same : (ofDocument a).rows = (ofDocument b).rows := by
    apply Table.ext_get?
    intro key
    apply Option.ext
    intro entry
    have row : Tabulates (flowLinksOf a) key entry ↔ Tabulates (flowLinksOf b) key entry :=
      ⟨fun tabulates => tabulates.perm shuffled distinct,
        fun tabulates => tabulates.perm shuffled.symm ((shuffled.map _).nodup_iff.1 distinct)⟩
    rw [get?_ofDocument_iff, get?_ofDocument_iff, displayed a, displayed b, row]
    simp only [nodes, shuffled.mem_iff]
  calc ofDocument a = ⟨(ofDocument a).rows⟩ := rfl
    _ = ofDocument b := by rw [same]

-- Two links compete for the third output of the first node, its second one stays free, and one origin has no node.
def crossed : Document :=
  { Document.empty with
    nodes := [.plain (.number 1) "Blur", .plain (.number 2) "Blur"]
    flowLinks := some [⟨7, .number 1, 2, .number 2, 0, []⟩, ⟨5, .number 9, 0, .number 1, 0, []⟩,
      ⟨3, .number 1, 0, .number 9, 0, []⟩, ⟨4, .number 1, 2, .number 3, 1, []⟩] }

def uncrossed : Document :=
  { crossed with
    nodes := crossed.nodes.reverse
    flowLinks := crossed.flowLinks.map List.reverse }

end SuccessorTable
end Patchbay
