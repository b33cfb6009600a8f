import Mathlib.Data.List.MinMax
import Patchbay.Sequencing.Successors

/-!
The table of successors, read entry by entry. An output shows the target of one of the links that claim it,
and two tables over the same nodes are equal as soon as every output shows the same in both.
-/
set_option autoImplicit false

namespace Patchbay

namespace FlowLink

def successor (flow : FlowLink) : FlowTarget := ⟨flow.target, flow.targetSlot⟩

-- Rows are kept by displayed id, so nodes with one display share a row.
def claims (flow : FlowLink) (key : String) (slot : Nat) : Bool :=
  flow.origin.display == key && flow.originSlot.toNat == slot

theorem claims_iff (flow : FlowLink) (key : String) (slot : Nat) :
    flow.claims key slot = true ↔ flow.origin.display = key ∧ flow.originSlot.toNat = slot := by
  simp [claims]

end FlowLink

/-! ### One row -/

section Row

variable (row : List (Option FlowTarget)) (slot : Nat) (target : FlowTarget)

theorem claimSlot_length : (claimSlot row slot target).length = max row.length (slot + 1) := by
  simp only [claimSlot, List.length_modify, List.length_append, List.length_replicate]
  omega

theorem claimSlot_entry (i : Nat) : (claimSlot row slot target)[i]?.join =
    row[i]?.join.or (if i = slot then some target else none) := by
  have padded : (row ++ List.replicate (slot + 1 - row.length) none)[i]?.join = row[i]?.join := by
    by_cases inside : i < row.length
    · rw [List.getElem?_append_left inside]
    · rw [List.getElem?_append_right (Nat.le_of_not_lt inside), List.getElem?_replicate,
        List.getElem?_eq_none (Nat.le_of_not_lt inside)]
      split <;> rfl
  by_cases here : i = slot
  · subst here
    have inside : i < (row ++ List.replicate (i + 1 - row.length) none).length := by
      rw [List.length_append, List.length_replicate]
      omega
    rw [List.getElem?_eq_getElem inside] at padded
    simp only [claimSlot, List.getElem?_modify_eq, List.getElem?_eq_getElem inside, if_pos]
    rw [← padded]
    rfl
  · simp only [claimSlot, if_neg here, Option.or_none]
    rw [List.getElem?_modify_ne _ _ (Ne.symm here)]
    exact padded

end Row

namespace SuccessorTable

/-! ### A table by its entries -/

def row (t : SuccessorTable) (key : String) : List (Option FlowTarget) := ((t.rows.get? key).join).getD []

def shown? (t : SuccessorTable) (key : String) (slot : Nat) : Option FlowTarget := (t.row key)[slot]?.join

theorem get?_claim (t : SuccessorTable) (link : FlowLink) (key : String) :
    (t.claim link).rows.get? key =
      if key = link.origin.display then
        some (some (claimSlot (t.row key) link.originSlot.toNat link.successor))
      else t.rows.get? key := by
  rw [claim, Table.get?_insert]
  by_cases here : key = link.origin.display
  · rw [if_pos here, if_pos here, here]
    rfl
  · rw [if_neg here, if_neg here]

theorem row_claim (t : SuccessorTable) (link : FlowLink) (key : String) :
    (t.claim link).row key =
      if key = link.origin.display then claimSlot (t.row key) link.originSlot.toNat link.successor
      else t.row key := by
  rw [row, get?_claim]
  split <;> rfl

section Run

variable (links : List FlowLink) (t : SuccessorTable) (key : String)

/-- Every output shows what it showed before, or else the first link that claims it. -/
theorem shown?_foldl (slot : Nat) : (links.foldl claim t).shown? key slot =
    (t.shown? key slot).or ((links.find? (·.claims key slot)).map (·.successor)) := by
  induction links generalizing t with
  | nil => exact (Option.or_none).symm
  | cons link rest ih =>
    rw [List.foldl_cons, ih, shown?, row_claim]
    by_cases here : key = link.origin.display
    · rw [if_pos here, claimSlot_entry]
      by_cases same : slot = link.originSlot.toNat
      · have hit : link.claims key slot = true := (link.claims_iff key slot).2 ⟨here.symm, same.symm⟩
        have first : (link :: rest).find? (·.claims key slot) = some link := List.find?_cons_of_pos hit
        rw [if_pos same, first, Option.or_assoc]
        rfl
      · have miss : ¬ link.claims key slot = true := fun hit => same ((link.claims_iff key slot).1 hit).2.symm
        have later : (link :: rest).find? (·.claims key slot) = rest.find? (·.claims key slot) :=
          List.find?_cons_of_neg miss
        rw [if_neg same, later, Option.or_none]
        rfl
    · have miss : ¬ link.claims key slot = true := fun hit => here ((link.claims_iff key slot).1 hit).1.symm
      have later : (link :: rest).find? (·.claims key slot) = rest.find? (·.claims key slot) :=
        List.find?_cons_of_neg miss
      rw [if_neg here, later]
      rfl

theorem lt_row_foldl_iff (slot : Nat) : slot < ((links.foldl claim t).row key).length ↔
    slot < (t.row key).length ∨ ∃ link ∈ links, link.origin.display = key ∧ slot ≤ link.originSlot.toNat := by
  induction links generalizing t with
  | nil => simp
  | cons link rest ih =>
    rw [List.foldl_cons, ih, row_claim, List.exists_mem_cons_iff]
    by_cases here : key = link.origin.display
    · rw [if_pos here, claimSlot_length, lt_max_iff, Nat.lt_succ_iff, or_assoc]
      simp only [here, true_and]
    · rw [if_neg here]
      simp only [Ne.symm here, false_and, false_or]

theorem isSome_foldl_iff : ((links.foldl claim t).rows.get? key).isSome ↔
    (t.rows.get? key).isSome ∨ ∃ link ∈ links, link.origin.display = key := by
  induction links generalizing t with
  | nil => simp
  | cons link rest ih =>
    rw [List.foldl_cons, ih, get?_claim, List.exists_mem_cons_iff]
    by_cases here : key = link.origin.display
    · simp [here]
    · simp [here, Ne.symm here]

theorem isSome_join_foldl_iff : ((links.foldl claim t).rows.get? key).join.isSome ↔
    (t.rows.get? key).join.isSome ∨ ∃ link ∈ links, link.origin.display = key := by
  induction links generalizing t with
  | nil => simp
  | cons link rest ih =>
    rw [List.foldl_cons, ih, get?_claim, List.exists_mem_cons_iff]
    by_cases here : key = link.origin.display
    · simp [here]
    · simp [here, Ne.symm here]

end Run

/-! ### The claims in their order -/

theorem comesFirst_iff (a b : FlowLink) : comesFirst a b = true ↔
    a.originSlot.toNat < b.originSlot.toNat ∨
      a.originSlot.toNat = b.originSlot.toNat ∧ a.id.toNat ≤ b.id.toNat := by
  simp [comesFirst, UInt64.lt_iff_toNat_lt, UInt64.le_iff_toNat_le, ← UInt64.toNat_inj]

theorem comesFirst_trans (a b c : FlowLink) (first : comesFirst a b = true) (second : comesFirst b c = true) :
    comesFirst a c = true := by
  rw [comesFirst_iff] at first second ⊢
  omega

theorem comesFirst_total (a b : FlowLink) : (comesFirst a b || comesFirst b a) = true := by
  rw [Bool.or_eq_true, comesFirst_iff, comesFirst_iff]
  omega

/-- Of the links that claim an output the one of the smallest id, and of these the first. -/
def claimant? (flows : List FlowLink) (key : String) (slot : Nat) : Option FlowLink :=
  (flows.filter (·.claims key slot)).argmin (·.id.toNat)

section Claimant

variable (flows : List FlowLink) (key : String) (slot : Nat)

theorem isSome_claimant?_iff : (claimant? flows key slot).isSome ↔
    ∃ flow ∈ flows, flow.origin.display = key ∧ flow.originSlot.toNat = slot := by
  rw [Option.isSome_iff_ne_none, Ne, claimant?, List.argmin_eq_none, List.filter_eq_nil_iff]
  simp only [FlowLink.claims_iff, Classical.not_forall, Classical.not_not, exists_prop]

/-- The sort is stable, so the first claim in the sorted list is the first one of the smallest id. -/
theorem find?_mergeSort : (flows.mergeSort comesFirst).find? (·.claims key slot) = claimant? flows key slot := by
  induction flows with
  | nil =>
    rw [List.mergeSort_nil]
    rfl
  | cons flow rest ih =>
    obtain ⟨before, after, sorted, others, smaller⟩ :=
      List.mergeSort_cons comesFirst_trans comesFirst_total flow rest
    have ordered := List.pairwise_mergeSort comesFirst_trans comesFirst_total (flow :: rest)
    rw [sorted] at ordered
    rw [others, List.find?_append] at ih
    rw [sorted, List.find?_append]
    by_cases hit : flow.claims key slot = true
    · have place := ((flow.claims_iff key slot).1 hit).2
      have kept : (flow :: rest).filter (·.claims key slot) = flow :: rest.filter (·.claims key slot) :=
        List.filter_cons_of_pos hit
      have found : (flow :: after).find? (·.claims key slot) = some flow := List.find?_cons_of_pos hit
      rw [claimant?, kept, List.argmin_cons, ← claimant?, ← ih, found]
      cases ahead : before.find? (·.claims key slot) with
      | some first =>
        -- What stands before the new link competes for the same slot, so its id is smaller.
        have claims : first.claims key slot = true := by simpa using List.find?_some ahead
        have same := ((first.claims_iff key slot).1 claims).2
        have less := smaller first (List.mem_of_find?_eq_some ahead)
        rw [Bool.not_eq_true', ← Bool.not_eq_true, comesFirst_iff] at less
        simp only [Option.some_or]
        rw [if_pos (by omega)]
      | none =>
        cases behind : after.find? (·.claims key slot) with
        | none => rfl
        | some later =>
          have claims : later.claims key slot = true := by simpa using List.find?_some behind
          have same := ((later.claims_iff key slot).1 claims).2
          have le := (List.pairwise_cons.1 (List.pairwise_append.1 ordered).2.1).1 later
            (List.mem_of_find?_eq_some behind)
          rw [comesFirst_iff] at le
          simp only [Option.none_or]
          rw [if_neg (by omega)]
    · have dropped : (flow :: rest).filter (·.claims key slot) = rest.filter (·.claims key slot) :=
        List.filter_cons_of_neg hit
      have passed : (flow :: after).find? (·.claims key slot) = after.find? (·.claims key slot) :=
        List.find?_cons_of_neg hit
      rw [claimant?, dropped, ← claimant?, ← ih, passed]

end Claimant

/-! ### The table of a document -/

theorem start_get? (nodes : List Node) (key : String) :
    (Table.ofList (nodes.map fun node => (node.id.display, (none : SuccessorRow)))).get? key =
      if nodes.any (·.id.display == key) then some none else none := by
  change ((Table.empty : Table SuccessorRow).insertAll _).get? key = _
  rw [Table.get?_insertAll, Table.get?_empty, Option.or_none, List.filter_map]
  by_cases known : nodes.any (·.id.display == key) = true
  · rw [if_pos known]
    obtain ⟨node, member, same⟩ := List.any_eq_true.1 known
    have listed : node ∈ nodes.filter (·.id.display == key) := List.mem_filter.2 ⟨member, same⟩
    rw [List.getLast?_map, Option.map_map]
    cases last : (nodes.filter (·.id.display == key)).getLast? with
    | none =>
      rw [List.getLast?_eq_none_iff] at last
      rw [last] at listed
      cases listed
    | some final => simp [Function.comp_def, last]
  · have none : nodes.filter (·.id.display == key) = [] := by
      rw [List.filter_eq_nil_iff]
      intro node member same
      exact known (List.any_eq_true.2 ⟨node, member, same⟩)
    rw [if_neg known]
    simp [Function.comp_def, none]

section OfDocument

variable (doc : Document) (key : String)

/-- What an output shows is decided by the links alone. -/
theorem shown?_ofDocument (slot : Nat) :
    (ofDocument doc).shown? key slot = (claimant? (flowLinksOf doc) key slot).map (·.successor) := by
  rw [ofDocument, shown?_foldl, find?_mergeSort, shown?, row, start_get?]
  split <;> rfl

theorem lt_row_ofDocument_iff (slot : Nat) : slot < ((ofDocument doc).row key).length ↔
    ∃ later, slot ≤ later ∧ ((ofDocument doc).shown? key later).isSome := by
  rw [ofDocument, lt_row_foldl_iff, ← ofDocument]
  have start : (row ⟨.ofList (doc.nodes.map fun node => (node.id.display, none))⟩ key).length = 0 := by
    rw [row, start_get?]
    split <;> rfl
  simp only [start, Nat.not_lt_zero, false_or, List.mem_mergeSort, shown?_ofDocument, Option.isSome_map,
    isSome_claimant?_iff]
  constructor
  · rintro ⟨flow, member, same, le⟩
    exact ⟨_, le, flow, member, same, rfl⟩
  · rintro ⟨_, le, flow, member, same, rfl⟩
    exact ⟨flow, member, same, le⟩

theorem isSome_join_ofDocument_iff : ((ofDocument doc).rows.get? key).join.isSome ↔
    ∃ slot, ((ofDocument doc).shown? key slot).isSome := by
  rw [ofDocument, isSome_join_foldl_iff, ← ofDocument]
  have start : ((Table.ofList (doc.nodes.map fun node =>
      (node.id.display, (none : SuccessorRow)))).get? key).join = none := by
    rw [start_get?]
    split <;> rfl
  simp only [start, Option.isSome_none, Bool.false_eq_true, false_or, List.mem_mergeSort, shown?_ofDocument,
    Option.isSome_map, isSome_claimant?_iff]
  constructor
  · rintro ⟨flow, member, same⟩
    exact ⟨_, flow, member, same, rfl⟩
  · rintro ⟨_, flow, member, same, _⟩
    exact ⟨flow, member, same⟩

theorem isSome_ofDocument_iff : ((ofDocument doc).rows.get? key).isSome ↔
    (∃ node ∈ doc.nodes, node.id.display = key) ∨ ((ofDocument doc).rows.get? key).join.isSome := by
  have start : ((Table.ofList (doc.nodes.map fun node =>
      (node.id.display, (none : SuccessorRow)))).get? key).isSome ↔ ∃ node ∈ doc.nodes, node.id.display = key := by
    rw [start_get?]
    by_cases known : doc.nodes.any (·.id.display == key) = true
    · rw [if_pos known]
      simpa using known
    · rw [if_neg known]
      simpa using known
  have empty : ((Table.ofList (doc.nodes.map fun node =>
      (node.id.display, (none : SuccessorRow)))).get? key).join = none := by
    rw [start_get?]
    split <;> rfl
  rw [ofDocument, isSome_foldl_iff, isSome_join_foldl_iff, start, empty]
  simp

end OfDocument

/-- Over the same displayed nodes, tables differ only where an output shows different targets. -/
theorem ofDocument_eq_iff (a b : Document)
    (displays : a.nodes.map (·.id.display) = b.nodes.map (·.id.display)) :
    ofDocument a = ofDocument b ↔
      ∀ key slot, (claimant? (flowLinksOf a) key slot).map (·.successor) =
        (claimant? (flowLinksOf b) key slot).map (·.successor) := by
  constructor
  · intro same key slot
    rw [← shown?_ofDocument, ← shown?_ofDocument, same]
  · intro alike
    have shown : ∀ key slot, (ofDocument a).shown? key slot = (ofDocument b).shown? key slot := by
      intro key slot
      rw [shown?_ofDocument, shown?_ofDocument, alike]
    have nodes : ∀ key, (∃ node ∈ a.nodes, node.id.display = key) ↔ ∃ node ∈ b.nodes, node.id.display = key := by
      intro key
      rw [← List.mem_map, ← List.mem_map, displays]
    have rows : ∀ key, (ofDocument a).row key = (ofDocument b).row key := by
      intro key
      have lengths : ((ofDocument a).row key).length = ((ofDocument b).row key).length := by
        apply Nat.le_antisymm
        · by_contra longer
          have inside := (lt_row_ofDocument_iff a key _).1 (Nat.lt_of_not_le longer)
          simp only [shown] at inside
          exact Nat.lt_irrefl _ ((lt_row_ofDocument_iff b key _).2 inside)
        · by_contra longer
          have inside := (lt_row_ofDocument_iff b key _).1 (Nat.lt_of_not_le longer)
          simp only [← shown] at inside
          exact Nat.lt_irrefl _ ((lt_row_ofDocument_iff a key _).2 inside)
      apply List.ext_getElem lengths
      intro slot insideA insideB
      have entry := shown key slot
      rw [shown?, shown?, List.getElem?_eq_getElem insideA, List.getElem?_eq_getElem insideB] at entry
      exact entry
    have claimed : ∀ key, ((ofDocument a).rows.get? key).join.isSome ↔
        ((ofDocument b).rows.get? key).join.isSome := by
      intro key
      simp only [isSome_join_ofDocument_iff, shown]
    have listed : ∀ key, ((ofDocument a).rows.get? key).isSome ↔ ((ofDocument b).rows.get? key).isSome := by
      intro key
      rw [isSome_ofDocument_iff, isSome_ofDocument_iff, nodes, claimed]
    have tables : (ofDocument a).rows = (ofDocument b).rows := by
      apply Table.ext_get?
      intro key
      have list := listed key
      have claim := claimed key
      have entries := rows key
      rw [row, row] at entries
      cases ofA : (ofDocument a).rows.get? key with
      | none => cases ofB : (ofDocument b).rows.get? key <;> simp_all
      | some rowA =>
        cases ofB : (ofDocument b).rows.get? key with
        | none => simp_all
        | some rowB => cases rowA <;> cases rowB <;> simp_all
    calc ofDocument a = ⟨(ofDocument a).rows⟩ := rfl
      _ = ⟨(ofDocument b).rows⟩ := by rw [tables]
      _ = ofDocument b := rfl

end SuccessorTable
end Patchbay
