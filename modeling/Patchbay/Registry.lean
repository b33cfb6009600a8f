import Patchbay.Failure
import Patchbay.Node.Basic
import Patchbay.Operation

/-!
The registry says what the types of nodes mean: which are operations, which were renamed, which inputs
are widgets, and which types exist in the editor only.
-/
set_option autoImplicit false

namespace Patchbay

/-- Kinds of nodes that never reach the engine: one forwards its input, one supplies a value to widgets,
and one is a comment. -/
inductive VirtualKind where
  | passThrough
  | primitive
  | remark
deriving DecidableEq

namespace VirtualKind

def name : VirtualKind → String
  | .passThrough => "pass_through"
  | .primitive => "primitive"
  | .remark => "annotation"

def ofName? : String → Option VirtualKind
  | "pass_through" => some .passThrough
  | "primitive" => some .primitive
  | "annotation" => some .remark
  | _ => none

end VirtualKind

structure Registry where
  operations : Table Operation
  renames : Table String
  widgetTypes : List String
  virtualNodes : Table VirtualKind
deriving DecidableEq

namespace Registry

def defaultRenames : List (String × String) := [
  ("T2IAdapterLoader", "ControlNetLoader"),
  ("ConditioningAverage ", "ConditioningAverage"),
  ("SDV_img2vid_Conditioning", "SVD_img2vid_Conditioning")]

def defaultWidgetTypes : List String := [
  "INT", "FLOAT", "STRING", "BOOLEAN", "COMBO", "INT:seed", "INT:noise_seed", "IMAGEUPLOAD"]

def defaultVirtualNodes : List (String × VirtualKind) := [
  ("Reroute", .passThrough),
  ("PrimitiveNode", .primitive),
  ("Note", .remark),
  ("MarkdownNote", .remark)]

/-- No operations, and the default tables. -/
def standard : Registry :=
  ⟨.empty, .ofList defaultRenames, defaultWidgetTypes, .ofList defaultVirtualNodes⟩

def insert (r : Registry) (op : Operation) : Registry :=
  { r with operations := r.operations.insert op.name op }

def addRename (r : Registry) (old new : String) : Registry :=
  { r with renames := r.renames.insert old new }

def addWidgetType (r : Registry) (type : String) : Registry :=
  { r with widgetTypes := r.widgetTypes ++ [type] }

def addVirtualNode (r : Registry) (type : String) (kind : VirtualKind) : Registry :=
  { r with virtualNodes := r.virtualNodes.insert type kind }

/-- Stores an operation under a key; one that states no name takes the key as its name. -/
def define (r : Registry) (key : String) (op : Operation) : Registry :=
  let op := if op.name.isEmpty then { op with name := key } else op
  { r with operations := r.operations.insert key op }

/-- Reads the entries in order. -/
def ofFields (entries : Fields) : Except Failure Registry :=
  entries.foldlM (fun r (key, value) =>
    match Operation.codec.ofJson value with
    | .ok op => .ok (r.define key op)
    | .error trouble => .error (.malformedRegistry (key ++ ": " ++ trouble.problem.message))) standard

def ofText (text : String) : Except Failure Registry :=
  match Codec.fields.ofText text with
  | .ok entries => ofFields entries
  | .error trouble => .error (.malformedRegistry (trouble.describe text))

def operation? (r : Registry) (type : String) : Option Operation := r.operations.get? type

/-- The current name of a type that was renamed. -/
def rename? (r : Registry) (type : String) : Option String := r.renames.get? type

/-- One renaming, where the table has one. -/
def currentName (r : Registry) (type : String) : String := (r.rename? type).getD type

def virtualKind? (r : Registry) (type : String) : Option VirtualKind := r.virtualNodes.get? type

def isPassThrough (r : Registry) (type : String) : Bool := r.virtualKind? type == some .passThrough

def isKnown (r : Registry) (type : String) : Bool :=
  r.operations.contains type || r.virtualNodes.contains type

def participation (r : Registry) (node : Node) : Participation :=
  if r.virtualNodes.contains node.type then .virtual else node.mode.participation

/-- An input is a widget if it offers choices or its type is a widget type, be it for every input or for
inputs of this name; unless it asks for a link. -/
def isWidget (r : Registry) (input : InputDef) : Bool :=
  !input.forcesLink &&
    (input.choices.isSome || r.widgetTypes.contains (input.type ++ ":" ++ input.name) ||
      r.widgetTypes.contains input.type)

end Registry

/-- Characters that are taken out of the names of unknown types. -/
def isUnsafeInType (c : Char) : Bool :=
  c = '&' || c = '<' || c = '>' || c = '\x22' || c = '\x27' || c = '\x60' || c = '='

def sanitizeType (name : String) : String :=
  String.ofList (name.toList.filter fun c => !isUnsafeInType c)

end Patchbay
