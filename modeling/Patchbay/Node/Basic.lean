import Patchbay.Json.Value
import Patchbay.Word

/-!
Nodes and their slots. Data slots and sequencing slots share the two slot lists of a node; a sequencing
slot is one of type `FLOW`. In stored files sequencing slots stand in lists of their own.
-/
set_option autoImplicit false

namespace Patchbay

abbrev LinkId := Word

/-- The type of sequencing slots and sequencing links. -/
def flowType : String := "FLOW"

/-- Stored files number their nodes; members of an expanded group have composed names. -/
inductive NodeId where
  | number (value : Int64)
  | name (value : String)
deriving DecidableEq

namespace NodeId

def display : NodeId → String
  | .number value => toString value.toInt
  | .name value => value

/-- The id of the member at `index` once this node is expanded as a group. -/
def member (id : NodeId) (index : Nat) : NodeId :=
  .name (id.display ++ ":" ++ toString index)

end NodeId

inductive Mode where
  | normal
  | muted
  | bypassed
deriving DecidableEq

namespace Mode

def code : Mode → Nat
  | .normal => 0
  | .muted => 2
  | .bypassed => 4

def ofCode? : Nat → Option Mode
  | 0 => some .normal
  | 2 => some .muted
  | 4 => some .bypassed
  | _ => none

theorem ofCode?_code (mode : Mode) : ofCode? mode.code = some mode := by cases mode <;> rfl

end Mode

/-- How a node takes part in a run: by its mode, unless its type exists in the editor only. -/
inductive Participation where
  | normal
  | muted
  | bypassed
  | virtual
deriving DecidableEq

def Mode.participation : Mode → Participation
  | .normal => .normal
  | .muted => .muted
  | .bypassed => .bypassed

/-- Marks an input that was converted from the widget of this name. -/
structure WidgetMark where
  name : String
  extra : Fields
deriving DecidableEq

structure InputSlot where
  name : String
  type : String
  link : Option LinkId
  widget : Option WidgetMark
  extra : Fields
deriving DecidableEq

structure OutputSlot where
  name : String
  type : String
  links : Option (List LinkId)
  index : Option Word
  extra : Fields
deriving DecidableEq

/-- A sequencing input as stored; only the first entry of its list counts. -/
structure FlowInput where
  name : String
  type : String
  links : Option (List (Option LinkId))
  extra : Fields
deriving DecidableEq

/-- A sequencing output as stored, with at most one successor. -/
structure FlowOutput where
  name : String
  type : String
  link : Option LinkId
  index : Option Word
  extra : Fields
deriving DecidableEq

structure Node where
  id : NodeId
  type : String
  mode : Mode
  inputs : List InputSlot
  outputs : List OutputSlot
  widgets : Option (List Json)
  flowInputs : Option (List FlowInput)
  flowOutputs : Option (List FlowOutput)
  extra : Fields
deriving DecidableEq

namespace InputSlot

def plain (name type : String) : InputSlot := ⟨name, type, none, none, []⟩

def isFlow (slot : InputSlot) : Bool := slot.type == flowType

def unlinked (slot : InputSlot) : InputSlot := { slot with link := none }

end InputSlot

namespace OutputSlot

def plain (name type : String) : OutputSlot := ⟨name, type, none, none, []⟩

def isFlow (slot : OutputSlot) : Bool := slot.type == flowType

def linkIds (slot : OutputSlot) : List LinkId := slot.links.getD []

def attach (slot : OutputSlot) (id : LinkId) : OutputSlot :=
  { slot with links := some (slot.linkIds ++ [id]) }

def detach (slot : OutputSlot) (id : LinkId) : OutputSlot :=
  { slot with links := slot.links.map (·.filter (· ≠ id)) }

def unlinked (slot : OutputSlot) : OutputSlot := { slot with links := none }

theorem linkIds_attach (slot : OutputSlot) (id : LinkId) :
    (slot.attach id).linkIds = slot.linkIds ++ [id] := rfl

theorem linkIds_detach (slot : OutputSlot) (id : LinkId) :
    (slot.detach id).linkIds = slot.linkIds.filter (· ≠ id) := by
  cases links : slot.links <;> simp [detach, linkIds, links]

end OutputSlot

namespace FlowInput

def plain (name : String) : FlowInput := ⟨name, flowType, some [none], []⟩

def link (slot : FlowInput) : Option LinkId := (slot.links.bind List.head?).join

end FlowInput

namespace FlowOutput

def plain (name : String) : FlowOutput := ⟨name, flowType, none, none, []⟩

end FlowOutput

namespace Node

def plain (id : NodeId) (type : String) : Node :=
  ⟨id, type, .normal, [], [], none, none, none, []⟩

def addInput (node : Node) (name type : String) : Node :=
  { node with inputs := node.inputs ++ [.plain name type] }

def addOutput (node : Node) (name type : String) : Node :=
  let slot := { OutputSlot.plain name type with index := some (.ofNat node.outputs.length) }
  { node with outputs := node.outputs ++ [slot] }

def flowInputCount (node : Node) : Nat := node.inputs.countP (·.isFlow)
def flowOutputCount (node : Node) : Nat := node.outputs.countP (·.isFlow)

/-- The sequencing inputs ahead of the first data input. -/
def leadingFlowInputs (node : Node) : Nat := (node.inputs.takeWhile (·.isFlow)).length
def leadingFlowOutputs (node : Node) : Nat := (node.outputs.takeWhile (·.isFlow)).length

def hasFlowSlot (node : Node) : Bool := 0 < node.flowInputCount || 0 < node.flowOutputCount

/-- The link that an input slot holds. -/
def inputLink (node : Node) (slot : Nat) : Option LinkId :=
  node.inputs[slot]?.bind (·.link)

/-- The node with no link on any slot. -/
def unlinked (node : Node) : Node :=
  { node with
    inputs := node.inputs.map (·.unlinked)
    outputs := node.outputs.map (·.unlinked) }

end Node
end Patchbay
