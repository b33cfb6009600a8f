import Patchbay.Json.Codec
import Patchbay.Node.Stored

/-!
Links from an output slot to an input slot. Sequencing links have a stored form of their own, in which
slot numbers count sequencing slots only.
-/
set_option autoImplicit false

namespace Patchbay

structure Link where
  id : LinkId
  origin : NodeId
  originSlot : Word
  target : NodeId
  targetSlot : Word
  type : String
deriving DecidableEq

/-- A stored sequencing link; whatever follows the target slot is kept in `tail`. -/
structure FlowLink where
  id : LinkId
  origin : NodeId
  originSlot : Word
  target : NodeId
  targetSlot : Word
  tail : List Json
deriving DecidableEq

def Link.isFlow (link : Link) : Bool := link.type == flowType

def FlowLink.toLink (link : FlowLink) : Link :=
  ⟨link.id, link.origin, link.originSlot, link.target, link.targetSlot, flowType⟩

def Link.toFlowLink (link : Link) : FlowLink :=
  ⟨link.id, link.origin, link.originSlot, link.target, link.targetSlot, [.text link.type]⟩

namespace Link

def recordText : String := "tuple struct LinkRecord"

def codec : Codec Link where
  read levels
    | .array start items => Source.enter levels start fun levels => do
      let wanted := recordText ++ " with 6 elements"
      let (id, items) ← items.readNext (Codec.linkId.read levels) 0 wanted
      let (origin, items) ← items.readNext (NodeId.codec.read levels) 1 wanted
      let (originSlot, items) ← items.readNext (Codec.slot.read levels) 2 wanted
      let (target, items) ← items.readNext (NodeId.codec.read levels) 3 wanted
      let (targetSlot, items) ← items.readNext (Codec.slot.read levels) 4 wanted
      let (type, items) ← items.readNext (Codec.string.read levels) 5 wanted
      items.finish
      return ⟨id, origin, originSlot, target, targetSlot, type⟩
    | other => .error (other.refuse recordText)
  write link := .array [.ofWord link.id, link.origin.toJson, .ofWord link.originSlot,
    link.target.toJson, .ofWord link.targetSlot, .text link.type]

end Link

namespace FlowLink

/-- Why a list of values is no sequencing link. -/
inductive Fault where
  | fieldCount (found : Nat)
  | notNatural (field : String)
  | notNode (field : String)
deriving DecidableEq

def Fault.message : Fault → String
  | .fieldCount found => "flow link needs 5 or 6 fields, found " ++ toString found
  | .notNatural field => "flow link " ++ field ++ " must be a non-negative integer"
  | .notNode field => "flow link " ++ field ++ " must be a node id"

def naturalField (field : String) (value : Json) : Except Fault Word :=
  match value.word? with
  | some word => .ok word
  | none => .error (.notNatural field)

def nodeField (field : String) (value : Json) : Except Fault NodeId :=
  match NodeId.ofJson? value with
  | some id => .ok id
  | none => .error (.notNode field)

def ofValues (values : List Json) : Except Fault FlowLink :=
  match values with
  | id :: origin :: originSlot :: target :: targetSlot :: tail =>
    if 1 < tail.length then .error (.fieldCount values.length)
    else do
      let id ← naturalField "id" id
      let origin ← nodeField "origin" origin
      let originSlot ← naturalField "origin slot" originSlot
      let target ← nodeField "target" target
      let targetSlot ← naturalField "target slot" targetSlot
      return ⟨id, origin, originSlot, target, targetSlot, tail⟩
  | _ => .error (.fieldCount values.length)

def toValues (link : FlowLink) : List Json :=
  [.ofWord link.id, link.origin.toJson, .ofWord link.originSlot, link.target.toJson,
    .ofWord link.targetSlot] ++ link.tail

def codec : Codec FlowLink :=
  (Codec.list .json).refine (fun values => (ofValues values).mapError Fault.message) toValues

end FlowLink
end Patchbay
