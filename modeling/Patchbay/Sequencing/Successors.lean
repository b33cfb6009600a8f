import Patchbay.Document

/-!
The table of successors: for every node, which node follows on each of its sequencing outputs.
-/
set_option autoImplicit false

namespace Patchbay

/-- A sequencing input that follows an output. -/
structure FlowTarget where
  node : NodeId
  slot : Word
deriving DecidableEq

/-- The successors of a node by sequencing output, or `none` for a node without any sequencing link. -/
abbrev SuccessorRow := Option (List (Option FlowTarget))

/-- Rows by displayed node id. -/
structure SuccessorTable where
  rows : Table SuccessorRow
deriving DecidableEq

namespace FlowTarget

def codec : Codec FlowTarget :=
  (Codec.pair NodeId.codec .slot "tuple struct FlowTarget"
    "tuple struct FlowTarget with 2 elements").convert
    (fun pair => ⟨pair.1, pair.2⟩) fun target => (target.node, target.slot)

end FlowTarget

/-- Claims an output unless it is claimed already; the row grows as far as needed. -/
def claimSlot (row : List (Option FlowTarget)) (slot : Nat) (target : FlowTarget) :
    List (Option FlowTarget) :=
  let row := row ++ List.replicate (slot + 1 - row.length) none
  row.modify slot (·.or (some target))

namespace SuccessorTable

def codec : Codec SuccessorTable :=
  (Codec.table (.nullable (.list (.nullable FlowTarget.codec)))).convert (⟨·⟩) (·.rows)

/-- Links compete in the order of their origin slots, and on one slot in the order of their ids. -/
def comesFirst (a b : FlowLink) : Bool :=
  a.originSlot < b.originSlot || (a.originSlot == b.originSlot && a.id ≤ b.id)

def claim (t : SuccessorTable) (link : FlowLink) : SuccessorTable :=
  let key := link.origin.display
  let row := ((t.rows.get? key).join).getD []
  ⟨t.rows.insert key (some (claimSlot row link.originSlot.toNat ⟨link.target, link.targetSlot⟩))⟩

/-- The sequencing links of a document in either form. -/
def flowLinksOf (doc : Document) : List FlowLink :=
  match doc.flowLinks with
  | some links => links
  | none => (doc.links.filter (·.isFlow)).map (·.toFlowLink)

/-- Every node has a row; the first claim on an output wins. -/
def ofDocument (doc : Document) : SuccessorTable :=
  ((flowLinksOf doc).mergeSort comesFirst).foldl claim
    ⟨.ofList (doc.nodes.map fun node => (node.id.display, none))⟩

def successors? (t : SuccessorTable) (id : NodeId) : Option (List (Option FlowTarget)) :=
  (t.rows.get? id.display).join

def size (t : SuccessorTable) : Nat := t.rows.size

end SuccessorTable
end Patchbay
