import Patchbay.Json.Codec
import Patchbay.Node.Basic

/-!
How nodes and slots are stored.
-/
set_option autoImplicit false

namespace Patchbay

def NodeId.ofJson? : Json → Option NodeId
  | .text value => some (.name value)
  | .number value => NodeId.number <$> value.int64?
  | _ => none

def NodeId.toJson : NodeId → Json
  | .number value => .ofInt64 value
  | .name value => .text value

theorem NodeId.ofJson?_name (value : String) : ofJson? (NodeId.name value).toJson = some (.name value) :=
  rfl

def NodeId.codec : Codec NodeId :=
  Codec.json.refine
    (fun value => match ofJson? value with
      | some id => .ok id
      | none => .error "data did not match any variant of untagged enum NodeId")
    toJson

def Mode.codec : Codec Mode :=
  (Codec.natural 255 "u8").refine
    (fun code => match ofCode? code.toNat with
      | some mode => .ok mode
      | none => .error ("unsupported node mode " ++ toString code.toNat))
    fun mode => .ofNat mode.code

def WidgetMark.shape : Shape WidgetMark where
  title := "struct WidgetRef"
  blank := ⟨"", []⟩
  fields := [.needed "name" .string (·.name) ({ · with name := · })]
  surplus := .kept (·.extra) ({ · with extra := · })

def InputSlot.shape : Shape InputSlot where
  title := "struct InputSlot"
  blank := .plain "" ""
  fields := [
    .needed "name" .string (·.name) ({ · with name := · }),
    .needed "type" .string (·.type) ({ · with type := · }),
    .defaulted "link" (.nullable .linkId) (·.link) ({ · with link := · }),
    .optional "widget" WidgetMark.shape.codec (·.widget) ({ · with widget := · })]
  surplus := .kept (·.extra) ({ · with extra := · })

def OutputSlot.shape : Shape OutputSlot where
  title := "struct OutputSlot"
  blank := .plain "" ""
  fields := [
    .needed "name" .string (·.name) ({ · with name := · }),
    .needed "type" .string (·.type) ({ · with type := · }),
    .defaulted "links" (.nullable (.list .linkId)) (·.links) ({ · with links := · }),
    .optional "slot_index" .slot (·.index) ({ · with index := · })]
  surplus := .kept (·.extra) ({ · with extra := · })

def FlowInput.shape : Shape FlowInput where
  title := "struct FlowInput"
  blank := { FlowInput.plain "" with links := none }
  fields := [
    .needed "name" .string (·.name) ({ · with name := · }),
    .defaulted "type" .string (·.type) ({ · with type := · }),
    .defaulted "links" (.nullable (.list (.nullable .linkId))) (·.links) ({ · with links := · })]
  surplus := .kept (·.extra) ({ · with extra := · })

def FlowOutput.shape : Shape FlowOutput where
  title := "struct FlowOutput"
  blank := .plain ""
  fields := [
    .needed "name" .string (·.name) ({ · with name := · }),
    .defaulted "type" .string (·.type) ({ · with type := · }),
    .defaulted "link" (.nullable .linkId) (·.link) ({ · with link := · }),
    .optional "slot_index" .slot (·.index) ({ · with index := · })]
  surplus := .kept (·.extra) ({ · with extra := · })

def Node.shape : Shape Node where
  title := "struct Node"
  blank := .plain (.number 0) ""
  fields := [
    .needed "id" NodeId.codec (·.id) ({ · with id := · }),
    .needed "type" .string (·.type) ({ · with type := · }),
    .defaulted "mode" Mode.codec (·.mode) ({ · with mode := · }),
    .defaulted "inputs" (.list InputSlot.shape.codec) (·.inputs) ({ · with inputs := · }),
    .defaulted "outputs" (.list OutputSlot.shape.codec) (·.outputs) ({ · with outputs := · }),
    .optional "widgets_values" (.list .json) (·.widgets) ({ · with widgets := · }),
    .optional "flow_inputs" (.list FlowInput.shape.codec) (·.flowInputs) ({ · with flowInputs := · }),
    .optional "flow_outputs" (.list FlowOutput.shape.codec) (·.flowOutputs)
      ({ · with flowOutputs := · })]
  surplus := .kept (·.extra) ({ · with extra := · })

def Node.codec : Codec Node := shape.codec

end Patchbay
