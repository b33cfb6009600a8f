import Patchbay.Document
import Patchbay.Registry

/-!
The order in which the nodes of a document run if only its data links are known: every producer before
its consumers. Pass-through nodes take no part; links count through them.
-/
set_option autoImplicit false

namespace Patchbay

/-- The ids other than this one. -/
def without (id : NodeId) (ids : List NodeId) : List NodeId := ids.filter (· ≠ id)

theorem length_without_lt {id : NodeId} {ids : List NodeId} (member : id ∈ ids) :
    (without id ids).length < ids.length :=
  List.length_filter_lt_length_iff_exists.2 ⟨id, member, by simp⟩

/-- Takes one off the counter of a node. -/
def lowerCount (id : NodeId) (counts : List (NodeId × Nat)) : List (NodeId × Nat) :=
  counts.map fun (other, count) => (other, if other = id then count - 1 else count)

def countOf (id : NodeId) (counts : List (NodeId × Nat)) : Option Nat :=
  (counts.find? (·.1 == id)).map (·.2)

/-- Takes one off for each target in turn, and lists the targets whose counter stands at zero then. -/
def release : List NodeId → List (NodeId × Nat) → List (NodeId × Nat) × List NodeId
  | [], counts => (counts, [])
  | target :: rest, counts =>
    let counts := lowerCount target counts
    let (final, ready) := release rest counts
    (final, if countOf target counts = some 0 then target :: ready else ready)

/-- Places the nodes of the queue from its front, each once, and lets the nodes that become ready join at
its end. Nodes that never become ready follow as they stand. -/
def placeQueue (successors : NodeId → List NodeId) (counts : List (NodeId × Nat))
    (waiting : List NodeId) (queue : List NodeId) : List NodeId :=
  match queue with
  | [] => waiting
  | id :: queue =>
    if id ∈ waiting then
      let (counts, ready) := release (successors id) counts
      id :: placeQueue successors counts (without id waiting) (queue ++ ready)
    else placeQueue successors counts waiting queue
termination_by (waiting.length, queue.length)
decreasing_by
  · next member => exact Prod.Lex.left _ _ (length_without_lt member)
  · exact Prod.Lex.right _ (Nat.lt_succ_self _)

/-- Walks a stack of link targets. A target that is no pass-through node is found; a pass-through node is
replaced by its own targets the first time it is met. -/
def reachFrom (targets : NodeId → List NodeId) (passThrough : List NodeId)
    (unvisited stack : List NodeId) : List NodeId :=
  match stack with
  | [] => []
  | target :: stack =>
    if target ∈ passThrough then
      if target ∈ unvisited then
        reachFrom targets passThrough (without target unvisited) (targets target ++ stack)
      else reachFrom targets passThrough unvisited stack
    else target :: reachFrom targets passThrough unvisited stack
termination_by (unvisited.length, stack.length)
decreasing_by
  · next member => exact Prod.Lex.left _ _ (length_without_lt member)
  · exact Prod.Lex.right _ (Nat.lt_succ_self _)
  · exact Prod.Lex.right _ (Nat.lt_succ_self _)

namespace Document

def nodeIds (doc : Document) : List NodeId := doc.nodes.map (·.id)

def passThroughIds (doc : Document) (r : Registry) : List NodeId :=
  (doc.nodes.filter fun node => r.isPassThrough node.type).map (·.id)

/-- The targets of the data links that leave a node, one per link; links with a missing end do not
count. -/
def dataTargets (doc : Document) (id : NodeId) : List NodeId :=
  (doc.links.filter fun link =>
    !link.isFlow && link.origin == id && doc.nodeIds.contains link.origin &&
      doc.nodeIds.contains link.target).map (·.target)

/-- The nodes that a node feeds, directly or through pass-through nodes, one entry per link that reaches
them. -/
def reachableSuccessors (doc : Document) (r : Registry) (id : NodeId) : List NodeId :=
  reachFrom doc.dataTargets (doc.passThroughIds r) (doc.passThroughIds r) (doc.dataTargets id)

/-- The nodes to be ordered, as they stand in the document. -/
def orderCandidates (doc : Document) (r : Registry) : List NodeId :=
  doc.nodeIds.filter fun id => !(doc.passThroughIds r).contains id

/-- The candidates with what they feed, each id once. -/
def feeds (doc : Document) (r : Registry) : List (NodeId × List NodeId) :=
  (doc.orderCandidates r).eraseDups.map fun id => (id, doc.reachableSuccessors r id)

/-- How often each candidate is fed. -/
def feedCounts (doc : Document) (r : Registry) : List (NodeId × Nat) :=
  let feeds := doc.feeds r
  feeds.map fun (id, _) => (id, (feeds.flatMap (·.2)).count id)

/-- First the nodes that can be ordered, from a queue that starts with the unfed ones; then, as they
stand in the document, the nodes on cycles and behind them. -/
def flowOrder (doc : Document) (r : Registry) : List NodeId :=
  let feeds := doc.feeds r
  let counts := doc.feedCounts r
  let candidates := doc.orderCandidates r
  placeQueue (fun id => (feeds.lookup id).getD []) counts candidates
    (candidates.filter fun id => countOf id counts == some 0)

end Document
end Patchbay
