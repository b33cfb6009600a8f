import Patchbay.Compiler

/-!
What is said between the compiler and the engine that runs prompts.
-/
set_option autoImplicit false

namespace Patchbay

structure NodeErrorReason where
  message : String
  details : String
deriving DecidableEq

/-- What the engine has against a node. -/
structure NodeError where
  classType : String
  reasons : List NodeErrorReason
deriving DecidableEq

/-- The engine's answer to a prompt that it accepted. -/
structure Receipt where
  promptId : String
  number : Int64
  nodeErrors : Table NodeError
deriving DecidableEq

/-- Why a request led to no further run. -/
inductive Refusal where
  | rejected (message details : String) (nodeErrors : Table NodeError)
  | transport (text : String)
  | uncompiled (failure : Failure)
deriving DecidableEq

/-- What is sent to the engine. -/
structure PromptRequest where
  number : Int64
  prompt : Prompt
  flows : SuccessorTable
  workflow : Document
deriving DecidableEq

def NodeErrorReason.shape : Shape NodeErrorReason where
  title := "struct NodeErrorReason"
  blank := ⟨"", ""⟩
  fields := [
    .needed "message" .string (·.message) ({ · with message := · }),
    .defaulted "details" .string (·.details) ({ · with details := · })]
  surplus := .ignored

def NodeError.shape : Shape NodeError where
  title := "struct NodeError"
  blank := ⟨"", []⟩
  fields := [
    .needed "class_type" .string (·.classType) ({ · with classType := · }),
    .defaulted "errors" (.list NodeErrorReason.shape.codec) (·.reasons) ({ · with reasons := · })]
  surplus := .ignored

def NodeError.codec : Codec NodeError := shape.codec

def Receipt.shape : Shape Receipt where
  title := "struct QueueReceipt"
  blank := ⟨"", 0, .empty⟩
  fields := [
    .needed "prompt_id" .string (·.promptId) ({ · with promptId := · }),
    .defaulted "number" .int64 (·.number) ({ · with number := · }),
    .defaulted "node_errors" (.table NodeError.codec) (·.nodeErrors) ({ · with nodeErrors := · })]
  surplus := .ignored

def Receipt.codec : Codec Receipt := shape.codec

namespace PromptRequest

/-- The workflow travels as metadata of the images that the engine makes. -/
def infoShape : Shape Document where
  title := "struct PngInfo"
  blank := .empty
  fields := [.needed "workflow" Document.codec id fun _ doc => doc]
  surplus := .ignored

def extraShape : Shape Document where
  title := "struct ExtraData"
  blank := .empty
  fields := [.needed "extra_pnginfo" infoShape.codec id fun _ doc => doc]
  surplus := .ignored

def shape : Shape PromptRequest where
  title := "struct PromptRequest"
  blank := ⟨0, .empty, ⟨.empty⟩, .empty⟩
  fields := [
    .needed "number" .int64 (·.number) ({ · with number := · }),
    .needed "prompt" Prompt.codec (·.prompt) ({ · with prompt := · }),
    .needed "flows" SuccessorTable.codec (·.flows) ({ · with flows := · }),
    .needed "extra_data" extraShape.codec (·.workflow) ({ · with workflow := · })]
  surplus := .ignored

def codec : Codec PromptRequest := shape.codec

end PromptRequest

def CompiledPrompt.toRequest (compiled : CompiledPrompt) (number : Int64) : PromptRequest :=
  ⟨number, compiled.output, compiled.flows, compiled.workflow⟩

namespace Refusal

def reasonText (reason : NodeErrorReason) : String :=
  "\n    - " ++ reason.message ++ ": " ++ reason.details

def nodeErrorText (error : NodeError) : String :=
  "\n" ++ error.classType ++ ":" ++ String.join (error.reasons.map reasonText)

def message : Refusal → String
  | .rejected message details nodeErrors =>
    message ++ (if details.isEmpty then "" else ": " ++ details) ++
      String.join (nodeErrors.values.map nodeErrorText)
  | .transport text => "Engine transport failed: " ++ text
  | .uncompiled failure => failure.message

end Refusal
end Patchbay
