import Patchbay.Graph.Basic

/-!
The order in which a graph is run: every producer before its consumers, over data and sequencing links
alike. Of the nodes that are ready, the one earliest in the document comes first; nodes that never become
ready come last, as they stand in the document.
-/
set_option autoImplicit false

namespace Patchbay

/-- A link between two existing nodes, by their positions. -/
structure Edge where
  origin : Nat
  target : Nat
deriving DecidableEq

/-- How many producers of each position are still to be placed. -/
abbrev Pending := List Int

namespace Pending

def ofEdges (size : Nat) (edges : List Edge) : Pending :=
  (List.range size).map fun index => edges.countP fun edge => edge.target == index

/-- A node is placed: its consumers wait for one producer less, per link. -/
def place (pending : Pending) (edges : List Edge) (index : Nat) : Pending :=
  (edges.filter (·.origin == index)).foldl
    (fun pending edge => pending.modify edge.target (· - 1)) pending

def isReady (pending : Pending) (index : Nat) : Bool := pending[index]? == some 0

end Pending

def dropIndex (index : Nat) (indices : List Nat) : List Nat := indices.filter (· ≠ index)

theorem length_dropIndex_lt {index : Nat} {indices : List Nat} (member : index ∈ indices) :
    (dropIndex index indices).length < indices.length :=
  List.length_filter_lt_length_iff_exists.2 ⟨index, member, by simp⟩

/-- Places the first ready position, over and over. -/
def schedule (edges : List Edge) (pending : Pending) (unplaced : List Nat) : List Nat :=
  match _found : unplaced.find? pending.isReady with
  | none => unplaced
  | some index =>
    index :: schedule edges (pending.place edges index) (dropIndex index unplaced)
termination_by unplaced.length
decreasing_by exact length_dropIndex_lt (List.mem_of_find?_eq_some _found)

namespace Graph

/-- The position of the last node of this id. -/
def lastPosition? (g : Graph) (id : NodeId) : Option Nat :=
  (g.nodes.reverse.findIdx? (·.id == id)).map (g.nodes.length - 1 - ·)

def edge? (g : Graph) (link : Link) : Option Edge := do
  return ⟨← g.lastPosition? link.origin, ← g.lastPosition? link.target⟩

def edges (g : Graph) : List Edge := g.links.filterMap g.edge?

def executionOrder (g : Graph) : List NodeId :=
  let size := g.nodes.length
  (schedule g.edges (.ofEdges size g.edges) (List.range size)).filterMap fun index =>
    g.nodes[index]?.map (·.id)

end Graph
end Patchbay
