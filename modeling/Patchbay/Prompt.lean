import Patchbay.Graph.Producer
import Patchbay.Group.Definitions

/-!
Prompts: the instructions that an engine receives, one for every node that takes part in the run.
-/
set_option autoImplicit false

namespace Patchbay

/-- An input of an instruction: an output of another instruction, or a literal value. -/
inductive InputValue where
  | link (producer : String) (slot : Word)
  | literal (value : Json)
deriving DecidableEq

structure Instruction where
  classType : String
  inputs : Table InputValue
  isInputLinked : Table Bool
deriving DecidableEq

/-- Instructions by displayed node id. -/
abbrev Prompt := Table Instruction

namespace InputValue

/-- A list of a text and a natural number is a link, anything else a literal. -/
def ofJson : Json → InputValue
  | .array [.text producer, .number (.natural slot)] => .link producer slot
  | value => .literal value

def toJson : InputValue → Json
  | .link producer slot => .array [.text producer, .ofWord slot]
  | .literal value => value

def codec : Codec InputValue := Codec.json.convert ofJson toJson

end InputValue

namespace Instruction

def empty (classType : String) : Instruction := ⟨classType, .empty, .empty⟩

def shape : Shape Instruction where
  title := "struct Instruction"
  blank := empty ""
  fields := [
    .needed "class_type" .string (·.classType) ({ · with classType := · }),
    .needed "inputs" (.table InputValue.codec) (·.inputs) ({ · with inputs := · }),
    .needed "is_input_linked" (.table .bool) (·.isInputLinked) ({ · with isInputLinked := · })]
  surplus := .ignored

def setLiteral (i : Instruction) (name : String) (value : Json) : Instruction :=
  { i with
    inputs := i.inputs.insert name (.literal value)
    isInputLinked := i.isInputLinked.insert name false }

def setLink (i : Instruction) (name producer : String) (slot : Word) : Instruction :=
  { i with
    inputs := i.inputs.insert name (.link producer slot)
    isInputLinked := i.isInputLinked.insert name true }

/-- The instruction without some of its inputs. -/
def dropInputs (i : Instruction) (drop : InputValue → Bool) : Instruction :=
  let dropped (name : String) : Bool := (i.inputs.get? name).any drop
  { i with
    inputs := i.inputs.filter fun _ value => !drop value
    isInputLinked := i.isInputLinked.filter fun name _ => !dropped name }

end Instruction

namespace Prompt

def codec : Codec Prompt := .table Instruction.shape.codec

/-- Takes out the links to instructions that are not there. -/
def prune (prompt : Prompt) : Prompt :=
  prompt.map fun _ i => i.dropInputs fun
    | .link producer _ => !prompt.contains producer
    | .literal _ => false

end Prompt

namespace Graph

/-- The literals of a node: the values of its widgets, as far as they are sent. -/
def literals (defs : Definitions) (node : Node) : List Widget :=
  match defs.operation? node.type with
  | some op => (node.bindWidgets op defs.registry).filter (·.isSent)
  | none => []

/-- An input slot takes the output of its producer, counted among the data outputs. -/
def linkInput (g : Graph) (r : Registry) (node : Node) (i : Instruction) (entry : InputSlot × Nat) :
    Instruction :=
  let (slot, index) := entry
  if slot.isFlow || slot.link.isNone then i
  else match g.resolveInput r node.id index with
  | none => i
  | some producer =>
    let flowOutputs := ((g.node? producer.node).map (·.flowOutputCount)).getD 0
    i.setLink slot.name producer.node.display (producer.slot.lower flowOutputs)

/-- The instruction of a node: its literals first, which linked inputs of the same name replace. -/
def instruction (g : Graph) (defs : Definitions) (node : Node) : Instruction :=
  let i := (literals defs node).foldl (fun i widget => i.setLiteral widget.name widget.value)
    (Instruction.empty node.type)
  node.inputs.zipIdx.foldl (g.linkInput defs.registry node) i

def addInstruction (g : Graph) (defs : Definitions) (prompt : Prompt) (id : NodeId) : Prompt :=
  match g.node? id with
  | none => prompt
  | some node =>
    if defs.registry.participation node = .normal then
      prompt.insert node.id.display (g.instruction defs node)
    else prompt

/-- The instructions of all nodes of an order that take part in the run. -/
def serialize (g : Graph) (defs : Definitions) (order : List NodeId) : Prompt :=
  Prompt.prune (order.foldl (g.addInstruction defs) .empty)

end Graph
end Patchbay
