import Patchbay.Proofs.Checked.Forms
import Patchbay.Proofs.Ordering.ReadyHeap
import Patchbay.Proofs.Sequencing.Successors

/-!
The successor table and the execution order with checked steps. The table needs a row as long as the largest origin
slot, so it fails where there is no word or no room for that length, and nowhere else. The order never fails.
-/
set_option autoImplicit false

namespace Patchbay

/-! ### Sums -/

def Word.add? (w : Word) (n : Nat) : Option Word := if w.toNat + n < UInt64.size then some (w.raise n) else none

theorem Word.add?_eq {w : Word} {n : Nat} (room : w.toNat + n < UInt64.size) : w.add? n = some (w.raise n) :=
  if_pos room

theorem Word.add?_eq_none {w : Word} {n : Nat} (overrun : UInt64.size ≤ w.toNat + n) : w.add? n = none :=
  if_neg (Nat.not_lt.2 overrun)

/-! ### The successor table -/

-- A row with this slot has a length, and a list may be so long.
def Word.IsRowSlot (capacity : Nat) (slot : Word) : Prop :=
  slot.toNat + 1 < UInt64.size ∧ slot.toNat + 1 ≤ capacity

instance (capacity : Nat) (slot : Word) : Decidable (slot.IsRowSlot capacity) := inferInstanceAs (Decidable (_ ∧ _))

def growRow? (capacity : Nat) (row : List (Option FlowTarget)) (slot : Word) : Option (List (Option FlowTarget)) :=
  if slot.toNat < row.length then some row
  else do
    let size ← slot.add? 1
    if size.toNat ≤ capacity then some (row ++ List.replicate (size.toNat - row.length) none) else none

def claimSlot? (capacity : Nat) (row : List (Option FlowTarget)) (slot : Word) (target : FlowTarget) :
    Option (List (Option FlowTarget)) := do
  changeAt? (fun held => some (held.or (some target))) slot.toNat (← growRow? capacity row slot)

section Row

variable {capacity : Nat} {row : List (Option FlowTarget)} {slot : Word}

theorem growRow?_eq (fits : slot.IsRowSlot capacity) :
    growRow? capacity row slot = some (row ++ List.replicate (slot.toNat + 1 - row.length) none) := by
  rw [growRow?]
  by_cases inside : slot.toNat < row.length
  · have none : slot.toNat + 1 - row.length = 0 := by omega
    rw [if_pos inside, none, List.replicate_zero, List.append_nil]
  · have size : (slot.raise 1).toNat = slot.toNat + 1 := by
      rw [Word.toNat_raise]
      have room := fits.1
      omega
    rw [if_neg inside, Word.add?_eq fits.1, Option.bind_eq_bind, Option.bind_some, size, if_pos fits.2]

theorem claimSlot?_eq (fits : slot.IsRowSlot capacity) (target : FlowTarget) :
    claimSlot? capacity row slot target = some (claimSlot row slot.toNat target) := by
  have inside : slot.toNat < (row ++ List.replicate (slot.toNat + 1 - row.length) none).length := by
    rw [List.length_append, List.length_replicate]
    omega
  rw [claimSlot?, growRow?_eq fits, Option.bind_eq_bind, Option.bind_some]
  exact changeAt?_eq (List.getElem?_eq_getElem inside) rfl

theorem claimSlot?_eq_none (short : row.length < UInt64.size ∧ row.length ≤ capacity)
    (outside : ¬ slot.IsRowSlot capacity) (target : FlowTarget) : claimSlot? capacity row slot target = none := by
  have beyond : ¬ slot.toNat < row.length := fun inside => outside ⟨by omega, by omega⟩
  have stuck : growRow? capacity row slot = none := by
    rw [growRow?, if_neg beyond]
    by_cases room : slot.toNat + 1 < UInt64.size
    · have size : (slot.raise 1).toNat = slot.toNat + 1 := by
        rw [Word.toNat_raise]
        omega
      rw [Word.add?_eq room, Option.bind_eq_bind, Option.bind_some, size, if_neg fun fits => outside ⟨room, fits⟩]
    · rw [Word.add?_eq_none (Nat.not_lt.1 room)]
      rfl
  rw [claimSlot?, stuck]
  rfl

end Row

namespace SuccessorTable

def claim? (capacity : Nat) (t : SuccessorTable) (link : FlowLink) : Option SuccessorTable :=
  (claimSlot? capacity (t.row link.origin.display) link.originSlot link.successor).map fun row =>
    ⟨t.rows.insert link.origin.display (some row)⟩

def ofDocument? (capacity : Nat) (doc : Document) : Option SuccessorTable :=
  ((flowLinksOf doc).mergeSort comesFirst).foldlM (claim? capacity)
    ⟨.ofList (doc.nodes.map fun node => (node.id.display, none))⟩

-- Rows of a length that is a word and that a list may have.
def Short (capacity : Nat) (t : SuccessorTable) : Prop :=
  ∀ key, (t.row key).length < UInt64.size ∧ (t.row key).length ≤ capacity

variable {capacity : Nat} {t : SuccessorTable}

theorem Short.claim (short : t.Short capacity) {link : FlowLink} (fits : link.originSlot.IsRowSlot capacity) :
    (t.claim link).Short capacity := by
  intro key
  rw [row_claim]
  by_cases here : key = link.origin.display
  · have before := short key
    obtain ⟨room, size⟩ := fits
    rw [if_pos here, claimSlot_length]
    omega
  · rw [if_neg here]
    exact short key

theorem foldlM_claim? (links : List FlowLink) (short : t.Short capacity) : links.foldlM (claim? capacity) t =
    if ∀ link ∈ links, link.originSlot.IsRowSlot capacity then some (links.foldl claim t) else none := by
  induction links generalizing t with
  | nil => simp
  | cons link rest ih =>
    rw [List.foldlM_cons, claim?]
    by_cases fits : link.originSlot.IsRowSlot capacity
    · rw [claimSlot?_eq fits, Option.map_some, Option.bind_eq_bind, Option.bind_some]
      refine (ih (short.claim fits)).trans ?_
      simp [fits]
    · rw [claimSlot?_eq_none (short _) fits, if_neg fun all => fits (all link List.mem_cons_self)]
      rfl

theorem short_ofList (capacity : Nat) (nodes : List Node) :
    (⟨.ofList (nodes.map fun node => (node.id.display, none))⟩ : SuccessorTable).Short capacity := by
  intro key
  have none : (⟨.ofList (nodes.map fun node => (node.id.display, none))⟩ : SuccessorTable).row key = [] := by
    rw [row, start_get?]
    split <;> rfl
  rw [none]
  exact ⟨by decide, Nat.zero_le _⟩

/-- The table is made unless an origin slot is so high that there is no row for it. -/
theorem ofDocument?_eq (capacity : Nat) (doc : Document) : ofDocument? capacity doc =
    if ∀ link ∈ flowLinksOf doc, link.originSlot.IsRowSlot capacity then some (ofDocument doc) else none := by
  rw [ofDocument?, foldlM_claim? _ (short_ofList capacity doc.nodes)]
  simp only [List.mem_mergeSort]
  rfl

end SuccessorTable

/-! ### The execution order -/

-- Each link counts for its target; a list of targets stands at its origin.
def countLinks? (size : Nat) (edges : List Edge) : Option (List Nat) :=
  edges.foldlM (fun degrees edge =>
    if edge.origin < size then changeAt? (fun count => some (count + 1)) edge.target degrees else none)
    (List.replicate size 0)

theorem foldlM_count {size : Nat} {edges : List Edge}
    (within : ∀ edge ∈ edges, edge.origin < size ∧ edge.target < size) {degrees : List Nat}
    (sized : degrees.length = size) :
    edges.foldlM (fun degrees edge =>
      if edge.origin < size then changeAt? (fun count => some (count + 1)) edge.target degrees else none) degrees =
        some (degrees.mapIdx fun index count => count + edges.countP (·.target = index)) := by
  induction edges generalizing degrees with
  | nil =>
    refine congrArg some (List.ext_getElem? fun index => ?_)
    rw [List.getElem?_mapIdx]
    simp
  | cons edge rest ih =>
    obtain ⟨origin, target⟩ := within edge List.mem_cons_self
    have counted : changeAt? (fun count => some (count + 1)) edge.target degrees =
        some (degrees.modify edge.target (· + 1)) :=
      changeAt?_eq (List.getElem?_eq_getElem (sized ▸ target)) rfl
    rw [List.foldlM_cons, if_pos origin, counted, Option.bind_eq_bind, Option.bind_some,
      ih (fun other member => within other (List.mem_cons_of_mem _ member)) (by rw [List.length_modify, sized])]
    congr 1
    apply List.ext_getElem?
    intro index
    rw [List.getElem?_mapIdx, List.getElem?_mapIdx, List.getElem?_modify]
    cases degrees[index]? with
    | none => rfl
    | some count =>
      by_cases here : edge.target = index
      · simp [here]
        omega
      · simp [here]

theorem countLinks?_eq {size : Nat} {edges : List Edge}
    (within : ∀ edge ∈ edges, edge.origin < size ∧ edge.target < size) :
    countLinks? size edges = some ((List.range size).map fun index => edges.countP (·.target = index)) := by
  rw [countLinks?, foldlM_count within (List.length_replicate ..)]
  congr 1
  apply List.ext_getElem?
  intro index
  rw [List.getElem?_mapIdx, List.getElem?_map, List.getElem?_replicate]
  by_cases below : index < size
  · simp [below]
  · simp [below]

theorem mapM_eq_filterMap {α β : Type} {f : α → Option β} {list : List α} (total : ∀ x ∈ list, (f x).isSome) :
    list.mapM f = some (list.filterMap f) := by
  induction list with
  | nil => rfl
  | cons x rest ih =>
    obtain ⟨y, found⟩ := Option.isSome_iff_exists.1 (total x List.mem_cons_self)
    rw [List.mapM_cons, found, Option.bind_eq_bind, Option.bind_some,
      ih fun other member => total other (List.mem_cons_of_mem _ member), List.filterMap_cons_some found]
    rfl

namespace Graph

-- The order by way of the heap. Every position that is placed has to be one of a node.
def executionOrder? (g : Graph) : Option (List NodeId) := do
  let all := List.range g.nodes.length
  let degrees ← countLinks? g.nodes.length g.edges
  let placed ← drain? g.edges degrees (all.filter fun index => degrees[index]? = some 0) []
  (placed ++ all.filter (· ∉ placed)).mapM fun index => g.nodes[index]?.map (·.id)

theorem executionOrder?_eq (g : Graph) : g.executionOrder? = some g.executionOrder := by
  obtain ⟨placed, drained, order⟩ := g.exists_drain?
  have inside : ∀ index ∈ placed ++ (List.range g.nodes.length).filter (· ∉ placed), index < g.nodes.length := by
    intro index member
    rw [order] at member
    exact List.mem_range.1 ((g.positions_placing.perm List.nodup_range).subset member)
  rw [executionOrder?, countLinks?_eq fun _ member => lt_of_mem_edges member]
  simp only [Option.bind_eq_bind, Option.bind_some, drained]
  rw [mapM_eq_filterMap fun index member => ?_, order]
  · rfl
  · rw [List.getElem?_eq_getElem (inside index member)]
    rfl

end Graph
end Patchbay
