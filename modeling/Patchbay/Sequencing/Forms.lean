import Patchbay.Sequencing.Order

/-!
The two forms of a document. `materialize` turns stored sequencing data into ordinary slots and links of
type `FLOW` ahead of all data slots, `strip` takes them out again. Documents from before sequencing get a
chain of links along their flow order first.
-/
set_option autoImplicit false

namespace Patchbay

/-! ### A chain for documents without sequencing -/

/-- A link from each node of an order to the next, with consecutive ids. -/
def chainLinks (next : LinkId) : List NodeId → List FlowLink
  | origin :: target :: rest =>
    ⟨next, origin, 0, target, 0, []⟩ :: chainLinks (next.raise 1) (target :: rest)
  | _ => []

namespace Node

/-- Gives a node the slots that it has in a chain, not linked yet. -/
def withChainSlots (r : Registry) (node : Node) : Node :=
  if r.isPassThrough node.type then { node with flowInputs := some [], flowOutputs := some [] }
  else
    { node with
      flowInputs := some [.plain "FROM"]
      flowOutputs := some [.plain "TO"] }

def linkFirstFlowOutput (node : Node) (id : LinkId) : Node :=
  { node with flowOutputs := node.flowOutputs.map (·.modifyHead ({ · with link := some id })) }

def linkFirstFlowInput (node : Node) (id : LinkId) : Node :=
  { node with flowInputs := node.flowInputs.map (·.modifyHead ({ · with links := some [some id] })) }

end Node

/-- Changes the last node of this id. -/
def updateLast (id : NodeId) (change : Node → Node) : List Node → List Node
  | [] => []
  | node :: rest =>
    if node.id = id ∧ ¬ rest.any (·.id == id) then change node :: rest
    else node :: updateLast id change rest

/-- The last node of this id. -/
def findLast? (nodes : List Node) (id : NodeId) : Option Node :=
  nodes.reverse.find? (·.id == id)

def linkChain (nodes : List Node) (chain : List FlowLink) : List Node :=
  chain.foldl (fun nodes link =>
    updateLast link.target (·.linkFirstFlowInput link.id)
      (updateLast link.origin (·.linkFirstFlowOutput link.id) nodes)) nodes

namespace Document

/-- Adds compact sequencing data: a chain along the flow order. -/
def addChain (doc : Document) (r : Registry) : Document :=
  let chain := chainLinks doc.nextLinkId (doc.flowOrder r)
  { doc with
    nodes := linkChain (doc.nodes.map (·.withChainSlots r)) chain
    flowLinks := some chain
    lastLinkId := if chain.isEmpty then doc.lastLinkId
      else some ((doc.nextLinkId.raise chain.length).lower 1)
    supportsFlow := true }

/-- The document is from before sequencing. -/
def needsChain (doc : Document) : Bool :=
  !doc.supportsFlow && !doc.hasCompactFlow && !doc.nodes.any (·.hasFlowSlot)

end Document

/-! ### From the compact form to the runtime form -/

def FlowInput.toSlot (slot : FlowInput) : InputSlot :=
  { InputSlot.plain slot.name flowType with extra := slot.extra }

def FlowOutput.toSlot (slot : FlowOutput) (index : Nat) : OutputSlot :=
  { OutputSlot.plain slot.name flowType with index := some (.ofNat index), extra := slot.extra }

def OutputSlot.raiseIndex (slot : OutputSlot) (n : Nat) : OutputSlot :=
  { slot with index := slot.index.map (·.raise n) }

def OutputSlot.lowerIndex (slot : OutputSlot) (n : Nat) : OutputSlot :=
  { slot with index := slot.index.map (·.lower n) }

namespace Node

def compactInputs (node : Node) : List FlowInput := node.flowInputs.getD []
def compactOutputs (node : Node) : List FlowOutput := node.flowOutputs.getD []

/-- A node must not carry sequencing slots in both forms. -/
def mixesForms (node : Node) : Bool :=
  (!node.compactInputs.isEmpty || !node.compactOutputs.isEmpty) && node.hasFlowSlot

/-- Puts the stored sequencing slots ahead of the data slots. -/
def materializeSlots (node : Node) : Node :=
  { node with
    inputs := node.compactInputs.map (·.toSlot) ++ node.inputs
    outputs := node.compactOutputs.mapIdx (fun index slot => slot.toSlot index) ++
      node.outputs.map (·.raiseIndex node.compactOutputs.length)
    flowInputs := none
    flowOutputs := none }

end Node

/-- How many sequencing inputs and outputs stand ahead of the data slots of a node; none if there is no
such node. -/
def shiftsOf (measure : Node → Nat × Nat) (nodes : List Node) (id : NodeId) : Nat × Nat :=
  ((findLast? nodes id).map measure).getD (0, 0)

def Node.compactCounts (node : Node) : Nat × Nat :=
  (node.compactInputs.length, node.compactOutputs.length)

def Node.leadingCounts (node : Node) : Nat × Nat :=
  (node.leadingFlowInputs, node.leadingFlowOutputs)

def Link.raiseSlots (shifts : NodeId → Nat × Nat) (link : Link) : Link :=
  { link with
    originSlot := link.originSlot.raise (shifts link.origin).2
    targetSlot := link.targetSlot.raise (shifts link.target).1 }

def Link.lowerSlots (shifts : NodeId → Nat × Nat) (link : Link) : Link :=
  { link with
    originSlot := link.originSlot.lower (shifts link.origin).2
    targetSlot := link.targetSlot.lower (shifts link.target).1 }

/-- Nodes and links while sequencing links are being added. -/
structure Weave where
  nodes : List Node
  links : List Link
  next : LinkId

namespace Weave

def outputTaken (w : Weave) (id : NodeId) (slot : Word) : Bool :=
  ((findLast? w.nodes id).bind (·.outputs[slot.toNat]?)).any (!·.linkIds.isEmpty)

def inputTaken (w : Weave) (id : NodeId) (slot : Word) : Bool :=
  ((findLast? w.nodes id).bind (·.inputs[slot.toNat]?)).any (·.link.isSome)

/-- Hangs a link into both slots. -/
def connect (w : Weave) (link : Link) : Weave :=
  let attachOutput (node : Node) : Node :=
    { node with outputs := node.outputs.modify link.originSlot.toNat (·.attach link.id) }
  let attachInput (node : Node) : Node :=
    { node with inputs := node.inputs.modify link.targetSlot.toNat ({ · with link := some link.id }) }
  { w with
    nodes := updateLast link.target attachInput (updateLast link.origin attachOutput w.nodes)
    links := w.links ++ [link] }

/-- Adds a stored sequencing link. It must name existing slots; if one of them is taken already, the link
is dropped. An id that is in use is replaced by a fresh one. -/
def add (counts : NodeId → Nat × Nat) (w : Weave) (flow : FlowLink) : Except Inconsistency Weave :=
  if (findLast? w.nodes flow.origin).isNone || (findLast? w.nodes flow.target).isNone then
    .error (.unknownNodes flow.id flow.origin flow.target)
  else if (counts flow.origin).2 ≤ flow.originSlot.toNat ||
      (counts flow.target).1 ≤ flow.targetSlot.toNat then
    .error (.missingSlot flow.id)
  else if w.outputTaken flow.origin flow.originSlot || w.inputTaken flow.target flow.targetSlot then
    .ok w
  else if w.links.any (·.id == flow.id) then
    .ok { w.connect { flow.toLink with id := w.next } with next := w.next.raise 1 }
  else
    .ok { w.connect flow.toLink with next := max w.next (flow.id.raise 1) }

end Weave

namespace Document

def lastLinkIdAfter (last : Option LinkId) (next : LinkId) : Option LinkId :=
  if 0 < next then some (max (last.getD 0) (next.lower 1)) else last

/-- Turns stored sequencing data into slots and links. A document without such data stays as it is. -/
def materialize (doc : Document) : Except Inconsistency Document :=
  if !doc.hasCompactFlow then .ok doc
  else match doc.nodes.find? (·.mixesForms) with
  | some node => .error (.mixedForms node.id)
  | none => do
    let counts := shiftsOf (·.compactCounts) doc.nodes
    let start : Weave := {
      nodes := doc.nodes.map (·.materializeSlots)
      links := doc.links.map (·.raiseSlots counts)
      next := doc.nextLinkId }
    let w ← doc.flowLinkList.foldlM (Weave.add counts) start
    return { doc with
      nodes := w.nodes
      links := w.links
      flowLinks := none
      lastLinkId := lastLinkIdAfter doc.lastLinkId w.next
      supportsFlow := true }

end Document

/-! ### From the runtime form to the compact form -/

def InputSlot.toFlowInput (slot : InputSlot) : FlowInput :=
  ⟨slot.name, slot.type, some [slot.link], slot.extra⟩

def OutputSlot.toFlowOutput (slot : OutputSlot) : FlowOutput :=
  ⟨slot.name, slot.type, slot.linkIds.head?, slot.index, slot.extra⟩

namespace Node

/-- All sequencing slots stand ahead of the data slots. -/
def flowSlotsLead (node : Node) : Bool :=
  node.leadingFlowInputs == node.flowInputCount && node.leadingFlowOutputs == node.flowOutputCount

/-- Moves the leading sequencing slots into lists of their own. -/
def stripSlots (node : Node) : Node :=
  { node with
    inputs := node.inputs.drop node.leadingFlowInputs
    outputs := (node.outputs.drop node.leadingFlowOutputs).map (·.lowerIndex node.leadingFlowOutputs)
    flowInputs := some ((node.inputs.take node.leadingFlowInputs).map (·.toFlowInput))
    flowOutputs := some ((node.outputs.take node.leadingFlowOutputs).map (·.toFlowOutput)) }

end Node

namespace Document

def strip (doc : Document) : Except Inconsistency Document :=
  match doc.nodes.find? (!·.flowSlotsLead) with
  | some node => .error (.dataBeforeFlow node.id)
  | none =>
    let counts := shiftsOf (·.leadingCounts) doc.nodes
    .ok { doc with
      nodes := doc.nodes.map (·.stripSlots)
      links := (doc.links.filter (!·.isFlow)).map (·.lowerSlots counts)
      flowLinks := some ((doc.links.filter (·.isFlow)).map (·.toFlowLink))
      supportsFlow := true }

/-- Brings a stored document into runtime form. -/
def expand (doc : Document) (r : Registry) : Except Inconsistency Document :=
  if doc.needsChain then (doc.addChain r).materialize else doc.materialize

/-- Brings a document into compact form. -/
def compact (doc : Document) : Except Inconsistency Document := do
  (← doc.materialize).strip

end Document
end Patchbay
