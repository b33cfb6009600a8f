import Patchbay.Group.Config
import Patchbay.Widget

/-!
A group seen as a single operation. Its widgets, inputs and outputs are those of its members that no
link inside the group takes; its exposure says which member slot or widget each of them stands for.
-/
set_option autoImplicit false

namespace Patchbay

/-- A slot of a member, counting data slots only. -/
structure MemberSlot where
  member : Nat
  slot : Nat
deriving DecidableEq

/-- A widget of a member and the name that the group gives to it. -/
structure MemberWidget where
  member : Nat
  name : String
  exposed : String
deriving DecidableEq

/-- What the slots and widgets of a group stand for: its input or output at an index stands for the member
slot at that index of the list. -/
structure Exposure where
  inputs : List MemberSlot
  widgets : List MemberWidget
  outputs : List MemberSlot
deriving DecidableEq

/-- A group as an operation, with the config that it was made of. -/
structure GroupDef where
  name : String
  type : String
  operation : Operation
  exposure : Exposure
  config : GroupConfig
deriving DecidableEq

/-- The types of group nodes start with this. -/
def groupTypeStart : String := "workflow/"

def groupType (name : String) : String := groupTypeStart ++ name

def isGroupType (type : String) : Bool := groupTypeStart.toList.isPrefixOf type.toList

def groupCategory : String := "group nodes/workflow"

namespace Exposure

/-- The member slot that an input of the group feeds. -/
def inputTarget? (e : Exposure) (index : Nat) : Option MemberSlot := e.inputs[index]?

def widgetsOf (e : Exposure) (member : Nat) : List MemberWidget :=
  e.widgets.filter (·.member == member)

def inputsJson (e : Exposure) (member : Nat) : Json :=
  .object (e.inputs.zipIdx.filterMap fun (inner, index) =>
    if inner.member = member then some (toString inner.slot, .ofNat index) else none)

def widgetsJson (e : Exposure) (member : Nat) : Json :=
  let named := Table.ofList ((e.widgetsOf member).map fun inner => (inner.name, inner.exposed))
  .object (named.entries.map fun (name, exposed) => (name, .text exposed))

/-- Inputs and widgets by member, outputs by index. -/
def toJson (e : Exposure) : Json :=
  let byMember (members : List Nat) (write : Nat → Json) : Json :=
    .object (members.eraseDups.map fun member => (toString member, write member))
  .object [
    ("inputs", byMember (e.inputs.map (·.member)) e.inputsJson),
    ("widgets", byMember (e.widgets.map (·.member)) e.widgetsJson),
    ("outputs", .object (e.outputs.zipIdx.map fun (inner, index) =>
      (toString index, .object [("node", .ofNat inner.member), ("slot", .ofNat inner.slot)])))]

end Exposure

namespace GroupConfig

/-- The links that start at a member. -/
def innerLinks (config : GroupConfig) : List GroupLink := config.links.filter (·.origin.isSome)

def linksTo (config : GroupConfig) (member : Nat) : List GroupLink :=
  config.innerLinks.filter (·.target.toNat == member)

def linksFrom (config : GroupConfig) (member : Nat) : List GroupLink :=
  config.innerLinks.filter (·.origin.any (·.toNat == member))

/-- Some link inside the group feeds this input. -/
def feeds (config : GroupConfig) (member slot : Nat) : Bool :=
  (config.linksTo member).any (·.targetSlot.toNat == slot)

/-- Some link inside the group takes this output. -/
def takes (config : GroupConfig) (member slot : Nat) : Bool :=
  (config.linksFrom member).any (·.originSlot.toNat == slot)

/-- The link with the lowest slot; of links with equal slots, the last one. -/
def lowest (slot : GroupLink → Word) (links : List GroupLink) : Option GroupLink :=
  links.foldl (fun best link =>
    match best with
    | none => some link
    | some other => if slot link ≤ slot other then some link else some other) none

def inputType? (config : GroupConfig) (link : GroupLink) : Option String :=
  (config.nodes[link.target.toNat]?).bind fun node =>
    node.inputs[link.targetSlot.toNat]?.map (·.type)

def outputType? (config : GroupConfig) (link : GroupLink) : Option String := do
  let node ← config.nodes[(← link.origin).toNat]?
  let slot ← node.outputs[link.originSlot.toNat]?
  return slot.type

/-- A pass-through member on the boundary of the group acts as an operation with one input and one
output, typed after the slot it is linked to; one inside the group is not exposed at all. -/
def boundaryOperation? (config : GroupConfig) (member : Nat) (type : String) : Option Operation :=
  let leaving := config.linksFrom member
  let entering := config.linksTo member
  if !leaving.isEmpty && !entering.isEmpty then none
  else
    let found :=
      if leaving.isEmpty then (lowest (·.targetSlot) entering).bind config.outputType?
      else (lowest (·.originSlot) leaving).bind config.inputType?
    let slotType := found.getD InputDef.anyType
    some (((Operation.named type).addRequired slotType
      (.array [.text slotType, .object []])).addOutput slotType "")

end GroupConfig

/-! ### What a group exposes -/

/-- A declared input of a member that the group exposes; one that is no widget has a link slot. -/
structure ExposedInput where
  member : Nat
  input : InputDef
  linkSlot : Option Nat
  spec : Json
deriving DecidableEq

structure ExposedOutput where
  source : MemberSlot
  type : Json
  label : String
  isList : Bool
deriving DecidableEq

/-- A seed takes part in `control_after_generate` unless its own options say otherwise. -/
def seedSpec (spec : Json) : Json :=
  let (type, options, more) := match spec with
    | .array parts => (parts.head?.getD .null, (parts[1]?.bind Json.object?).getD [], parts.drop 2)
    | other => (other, [], [])
  .array (type :: .object (Fields.putAll [(controlName, .bool true)] options) :: more)

namespace ExposedInput

def exposedName (member : Nat) (name : String) : String := toString member ++ ":" ++ name

def name (e : ExposedInput) : String := exposedName e.member e.input.name

/-- The declared inputs of a member from a link slot on, without those that are fed inside. -/
def ofInputs (config : GroupConfig) (r : Registry) (op : Operation) (member : Nat) :
    Nat → List InputDef → List ExposedInput
  | _, [] => []
  | slot, input :: rest =>
    let declared := (op.spec? input.name).getD .null
    let spec := if InputDef.isSeedName input.name then seedSpec declared else declared
    if r.isWidget input then ⟨member, input, none, spec⟩ :: ofInputs config r op member slot rest
    else if config.feeds member slot then ofInputs config r op member (slot + 1) rest
    else ⟨member, input, some slot, spec⟩ :: ofInputs config r op member (slot + 1) rest

def memberSlot? (e : ExposedInput) : Option MemberSlot := e.linkSlot.map (⟨e.member, ·⟩)

def memberWidget? (e : ExposedInput) : Option MemberWidget :=
  if e.linkSlot.isNone then some ⟨e.member, e.input.name, e.name⟩ else none

end ExposedInput

namespace ExposedOutput

/-- The outputs of a member without those that are taken inside. -/
def ofOutputs (config : GroupConfig) (op : Operation) (member : Nat) : List ExposedOutput :=
  (op.outputs.zipIdx.filter fun (_, slot) => !config.takes member slot).map fun (type, slot) =>
    ⟨⟨member, slot⟩, type, toString member ++ ":" ++ (op.outputLabel? slot).getD "",
      (op.outputIsList[slot]?).getD false⟩

end ExposedOutput

namespace GroupConfig

/-- What a member does inside a group, seen from outside: the operation of its type, or that of a
pass-through node on the boundary. -/
def memberOperation? (config : GroupConfig) (r : Registry) (lookup : String → Option Operation)
    (member : Nat) (node : Node) : Option Operation :=
  match lookup node.type with
  | some op => some op
  | none => if r.isPassThrough node.type then config.boundaryOperation? member node.type else none

/-- The members that have an operation, by position. -/
def memberOperations (config : GroupConfig) (r : Registry) (lookup : String → Option Operation) :
    List (Nat × Operation) :=
  config.nodes.zipIdx.filterMap fun (node, member) =>
    (config.memberOperation? r lookup member node).map (member, ·)

end GroupConfig

namespace GroupDef

/-- Describes a group as one operation. Operations of its members are found by `lookup`. -/
def build (config : GroupConfig) (name : String) (r : Registry)
    (lookup : String → Option Operation) : GroupDef :=
  let config := config.withoutFlow
  let members := config.memberOperations r lookup
  let inputs := members.flatMap fun (member, op) =>
    ExposedInput.ofInputs config r op member 0 op.inputs
  let outputs := members.flatMap fun (member, op) => ExposedOutput.ofOutputs config op member
  { name := name
    type := groupType name
    operation :=
      { Operation.named name with
        displayName := some name
        category := groupCategory
        input :=
          { InputSpec.empty with required := Fields.putAll [] (inputs.map fun e => (e.name, e.spec)) }
        outputs := outputs.map (·.type)
        outputNames := outputs.map (·.label)
        outputIsList := outputs.map (·.isList)
        flowInputs := [("FROM", flowType)]
        flowOutputs := [("TO", flowType)] }
    exposure :=
      { inputs := inputs.filterMap (·.memberSlot?)
        widgets := inputs.filterMap (·.memberWidget?)
        outputs := outputs.map (·.source) }
    config := config }

end GroupDef
end Patchbay
