import Patchbay.Json.Codec

/-!
Definitions of operations: which inputs a node of a type declares and what it gives out.
-/
set_option autoImplicit false

namespace Patchbay

/-- Declared inputs by name, in the order of their declaration. -/
structure InputSpec where
  required : Fields
  optional : Fields
  extra : Fields
deriving DecidableEq

structure Operation where
  name : String
  displayName : Option String
  category : String
  input : InputSpec
  outputs : List Json
  outputNames : List String
  outputIsList : List Bool
  isOutputNode : Bool
  flowInputs : List (String × String)
  flowOutputs : List (String × String)
deriving DecidableEq

/-- One declared input. The type is `COMBO` where a list of choices is declared. -/
structure InputDef where
  name : String
  type : String
  choices : Option (List Json)
  options : Fields
  required : Bool
deriving DecidableEq

def InputSpec.empty : InputSpec := ⟨[], [], []⟩

def InputSpec.shape : Shape InputSpec where
  title := "struct InputSpec"
  blank := .empty
  fields := [
    .defaulted "required" .fields (·.required) ({ · with required := · }),
    .defaulted "optional" .fields (·.optional) ({ · with optional := · })]
  surplus := .kept (·.extra) ({ · with extra := · })

namespace InputDef

def comboType : String := "COMBO"
def anyType : String := "*"

/-- Reads a declaration: a type, or a list of a type and options. -/
def ofSpec (name : String) (spec : Json) (required : Bool) : InputDef :=
  let (typeSpec, options) := match spec with
    | .array parts => (parts.head?.getD .null, (parts[1]?.bind Json.object?).getD [])
    | other => (other, [])
  match typeSpec with
  | .array choices => ⟨name, comboType, some choices, options, required⟩
  | .text type => ⟨name, type, none, options, required⟩
  | _ => ⟨name, anyType, none, options, required⟩

def option? (input : InputDef) (key : String) : Option Json := Fields.get? key input.options

/-- The input asks for a link even where its type makes it a widget. -/
def forcesLink (input : InputDef) : Bool :=
  (input.option? "forceInput").bind Json.bool? == some true

def intOption? (input : InputDef) (key : String) : Option Int64 :=
  (input.option? key).bind Json.int64?

end InputDef

namespace Operation

def empty : Operation := ⟨"", none, "", .empty, [], [], [], false, [], []⟩

def named (name : String) : Operation := { empty with name := name }

def namePair : Codec (String × String) :=
  .pair .string .string "a tuple of size 2" "a tuple of size 2"

def shape : Shape Operation where
  title := "struct OperationDef"
  blank := empty
  fields := [
    .defaulted "name" .string (·.name) ({ · with name := · }),
    .optional "display_name" .string (·.displayName) ({ · with displayName := · }),
    .defaulted "category" .string (·.category) ({ · with category := · }),
    .defaulted "input" InputSpec.shape.codec (·.input) ({ · with input := · }),
    .defaulted "output" (.list .json) (·.outputs) ({ · with outputs := · }),
    .defaulted "output_name" (.list .string) (·.outputNames) ({ · with outputNames := · }),
    .defaulted "output_is_list" (.list .bool) (·.outputIsList) ({ · with outputIsList := · }),
    .defaulted "output_node" .bool (·.isOutputNode) ({ · with isOutputNode := · }),
    .defaulted "flow_inputs" (.list namePair) (·.flowInputs) ({ · with flowInputs := · }),
    .defaulted "flow_outputs" (.list namePair) (·.flowOutputs) ({ · with flowOutputs := · })]
  surplus := .ignored

def codec : Codec Operation := shape.codec

def addRequired (op : Operation) (name : String) (spec : Json) : Operation :=
  { op with input := { op.input with required := op.input.required.put name spec } }

def addOptional (op : Operation) (name : String) (spec : Json) : Operation :=
  { op with input := { op.input with optional := op.input.optional.put name spec } }

def addOutput (op : Operation) (type name : String) : Operation :=
  { op with
    outputs := op.outputs ++ [.text type]
    outputNames := op.outputNames ++ [name]
    outputIsList := op.outputIsList ++ [false] }

/-- The declared inputs, the required ones first. -/
def inputs (op : Operation) : List InputDef :=
  op.input.required.map (fun (name, spec) => .ofSpec name spec true) ++
    op.input.optional.map fun (name, spec) => .ofSpec name spec false

/-- The declaration of an input; a required one hides an optional one of the same name. -/
def spec? (op : Operation) (name : String) : Option Json :=
  (Fields.get? name op.input.required).or (Fields.get? name op.input.optional)

def input? (op : Operation) (name : String) : Option InputDef :=
  match Fields.get? name op.input.required with
  | some spec => some (.ofSpec name spec true)
  | none => (Fields.get? name op.input.optional).map fun spec => .ofSpec name spec false

def outputType? (op : Operation) (index : Nat) : Option String :=
  op.outputs[index]?.map fun
    | .text type => type
    | .array _ => InputDef.comboType
    | _ => InputDef.anyType

/-- The declared name of an output, or else its type. -/
def outputLabel? (op : Operation) (index : Nat) : Option String :=
  (op.outputNames[index]?.filter (· ≠ "")).or (op.outputType? index)

end Operation
end Patchbay
