import Patchbay.Link

/-!
The stored definition of a group: copies of its member nodes and the links between them.
-/
set_option autoImplicit false

namespace Patchbay

/-- A link between members, which are named by their position. Without an origin the link came from
outside the group. -/
structure GroupLink where
  origin : Option Word
  originSlot : Word
  target : Word
  targetSlot : Word
  tail : List Json
deriving DecidableEq

structure GroupConfig where
  nodes : List Node
  links : List GroupLink
  extra : Fields
deriving DecidableEq

namespace GroupLink

/-- Why a list of values is no link between members. -/
inductive Fault where
  | fieldCount (found : Nat)
  | notNatural (field : String)
deriving DecidableEq

def Fault.message : Fault → String
  | .fieldCount found => "group link needs at least 4 fields, found " ++ toString found
  | .notNatural field => "group link " ++ field ++ " must be a non-negative integer"

def naturalField (field : String) (value : Json) : Except Fault Word :=
  match value.word? with
  | some word => .ok word
  | none => .error (.notNatural field)

def originField : Json → Except Fault (Option Word)
  | .null => .ok none
  | value => some <$> naturalField "origin" value

def ofValues (values : List Json) : Except Fault GroupLink :=
  match values with
  | origin :: originSlot :: target :: targetSlot :: tail => do
    let origin ← originField origin
    let originSlot ← naturalField "origin slot" originSlot
    let target ← naturalField "target" target
    let targetSlot ← naturalField "target slot" targetSlot
    return ⟨origin, originSlot, target, targetSlot, tail⟩
  | _ => .error (.fieldCount values.length)

def toValues (link : GroupLink) : List Json :=
  [match link.origin with
    | none => .null
    | some origin => .ofWord origin,
    .ofWord link.originSlot, .ofWord link.target, .ofWord link.targetSlot] ++ link.tail

def codec : Codec GroupLink :=
  (Codec.list .json).refine (fun values => (ofValues values).mapError Fault.message) toValues

/-- A link is a sequencing link when its tail says so. -/
def isFlow (link : GroupLink) : Bool := link.tail.any (·.text? == some flowType)

/-- Counts both slots without the leading sequencing slots of the members; `none` when the link touches
one of those. -/
def withoutFlow? (leading : Word → Nat × Nat) (link : GroupLink) : Option GroupLink := do
  let originSlot ← match link.origin with
    | none => some link.originSlot
    | some origin => link.originSlot.lower? (leading origin).2
  let targetSlot ← link.targetSlot.lower? (leading link.target).1
  return { link with originSlot := originSlot, targetSlot := targetSlot }

end GroupLink

/-- A member without its leading sequencing slots and without stored sequencing slots. -/
def Node.withoutLeadingFlow (node : Node) : Node :=
  let outputs := (node.outputs.drop node.leadingFlowOutputs).map fun slot =>
    { slot with index := slot.index.map (·.lower node.leadingFlowOutputs) }
  { node with
    inputs := node.inputs.drop node.leadingFlowInputs
    outputs := outputs
    flowInputs := none
    flowOutputs := none }

namespace GroupConfig

def shape : Shape GroupConfig where
  title := "struct GroupConfig"
  blank := ⟨[], [], []⟩
  fields := [
    .needed "nodes" (.list Node.codec) (·.nodes) ({ · with nodes := · }),
    .defaulted "links" (.list GroupLink.codec) (·.links) ({ · with links := · })]
  surplus := .kept (·.extra) ({ · with extra := · })

def codec : Codec GroupConfig := shape.codec

/-- How many sequencing inputs and outputs lead the slots of the member at a position. -/
def leadingFlow (config : GroupConfig) (index : Word) : Nat × Nat :=
  match config.nodes[index.toNat]? with
  | some node => (node.leadingFlowInputs, node.leadingFlowOutputs)
  | none => (0, 0)

/-- The config as data alone: no leading sequencing slots, no sequencing links, and slot numbers that
count data slots. -/
def withoutFlow (config : GroupConfig) : GroupConfig :=
  { config with
    nodes := config.nodes.map (·.withoutLeadingFlow)
    links := (config.links.filter fun link => !link.isFlow).filterMap
      (·.withoutFlow? config.leadingFlow) }

end GroupConfig
end Patchbay
