import Patchbay.Document

/-!
A runtime document as a graph that is being worked on. Links live in one list, and the slots at both ends
name them; the operations below change both together.
-/
set_option autoImplicit false

namespace Patchbay

/-- Nodes and links in document order. Link ids are distinct; should nodes share an id, all of them are
kept alike. -/
structure Graph where
  nodes : List Node
  links : List Link
  nextLinkId : LinkId
deriving DecidableEq

/-- Puts a link in the place of the one with the same id, or else at the end. -/
def putLink (link : Link) : List Link → List Link
  | [] => [link]
  | other :: rest => if other.id = link.id then link :: rest else other :: putLink link rest

namespace Graph

/-- Stores a node under its id: nodes that have this id already become equal to it. -/
def overwrite (node : Node) (nodes : List Node) : List Node :=
  nodes.map fun other => if other.id = node.id then node else other

def ofDocument (doc : Document) : Graph where
  nodes := doc.nodes.foldl (fun nodes node => overwrite node nodes) doc.nodes
  links := doc.links.foldl (fun links link => putLink link links) []
  nextLinkId := doc.nextLinkId

/-- Writes the graph back; what the graph does not own is taken from `template`. -/
def toDocument (g : Graph) (template : Document) : Document :=
  { template with
    nodes := g.nodes
    links := g.links
    lastLinkId := if 0 < g.nextLinkId then some (g.nextLinkId.lower 1) else template.lastLinkId }

def nodeIds (g : Graph) : List NodeId := g.nodes.map (·.id)

def node? (g : Graph) (id : NodeId) : Option Node := g.nodes.find? (·.id == id)

def link? (g : Graph) (id : LinkId) : Option Link := g.links.find? (·.id == id)

def position? (g : Graph) (id : NodeId) : Option Nat := g.nodes.findIdx? (·.id == id)

/-- The link that feeds an input slot. -/
def incoming? (g : Graph) (id : NodeId) (slot : Nat) : Option Link :=
  (g.node? id).bind fun node => (node.inputLink slot).bind g.link?

def modifyNode (g : Graph) (id : NodeId) (change : Node → Node) : Graph :=
  { g with nodes := g.nodes.map fun node => if node.id = id then change node else node }

end Graph

namespace Node

def attachOutput (link : Link) (node : Node) : Node :=
  { node with outputs := node.outputs.modify link.originSlot.toNat fun slot =>
      if slot.linkIds.contains link.id then slot else slot.attach link.id }

def attachInput (link : Link) (node : Node) : Node :=
  { node with inputs := node.inputs.modify link.targetSlot.toNat ({ · with link := some link.id }) }

def detachOutput (link : Link) (node : Node) : Node :=
  { node with outputs := node.outputs.modify link.originSlot.toNat (·.detach link.id) }

def detachInput (link : Link) (node : Node) : Node :=
  { node with inputs := node.inputs.modify link.targetSlot.toNat fun slot =>
      if slot.link = some link.id then slot.unlinked else slot }

end Node

namespace Graph

def attach (g : Graph) (link : Link) : Graph :=
  (g.modifyNode link.origin (·.attachOutput link)).modifyNode link.target (·.attachInput link)

def detach (g : Graph) (link : Link) : Graph :=
  (g.modifyNode link.origin (·.detachOutput link)).modifyNode link.target (·.detachInput link)

/-- Takes a link id that no link has yet, as far as there is one. -/
def allocate (g : Graph) : LinkId × Graph :=
  (g.nextLinkId, { g with nextLinkId := g.nextLinkId.raise 1 })

/-- Adds a link and hangs it into the slots at both ends. A link with the same id is taken out first, and
its place is kept. -/
def insertLink (g : Graph) (link : Link) : Graph :=
  let g := match g.link? link.id with
    | some previous => g.detach previous
    | none => g
  let g := g.attach link
  { g with links := putLink link g.links, nextLinkId := max g.nextLinkId (link.id.raise 1) }

def removeLink (g : Graph) (id : LinkId) : Graph :=
  match g.link? id with
  | some link => { g with links := g.links.filter (·.id ≠ id) }.detach link
  | none => g

/-- Inserts nodes at a position in document order, or at the end if it lies behind that. -/
def insertNodes (g : Graph) (position : Nat) (nodes : List Node) : Graph :=
  let all := g.nodes.take position ++ nodes ++ g.nodes.drop position
  { g with nodes := nodes.foldl (fun all node => overwrite node all) all }

def touches (id : NodeId) (link : Link) : Bool := link.origin == id || link.target == id

/-- Removes a node with every link that still touches it. -/
def removeNode (g : Graph) (id : NodeId) : Graph :=
  let g := ((g.links.filter (touches id)).map (·.id)).foldl removeLink g
  { g with nodes := g.nodes.filter (·.id ≠ id) }

end Graph
end Patchbay
