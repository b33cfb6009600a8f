import Patchbay.Json.Problem
import Patchbay.Node.Basic

/-!
Why a document cannot be compiled, and the wording of each reason. Trouble inside a well-formed document,
such as an unknown type or a dangling link, is no failure.
-/
set_option autoImplicit false

namespace Patchbay

/-- What is inconsistent about the sequencing data of a document. -/
inductive Inconsistency where
  | mixedForms (node : NodeId)
  | unknownNodes (link : LinkId) (origin target : NodeId)
  | missingSlot (link : LinkId)
  | dataBeforeFlow (node : NodeId)
  | stated (message : String)
deriving DecidableEq

inductive Failure where
  | malformedDocument (text : String) (position : Position)
  | invalidDocument (cause : Inconsistency) (hint : Option String)
  | malformedRegistry (text : String)
  | invalidExtension (text : String)
  | inaccessible (path reason : String)
  | invalidSettings (text : String)
deriving DecidableEq

def Inconsistency.message : Inconsistency → String
  | .mixedForms node =>
    "node " ++ node.display ++ " carries both compact and materialized FLOW slots"
  | .unknownNodes link origin target =>
    "flow link " ++ toString link.toNat ++ " connects unknown nodes " ++ origin.display ++ " -> " ++
      target.display
  | .missingSlot link => "flow link " ++ toString link.toNat ++ " refers to a missing FLOW slot"
  | .dataBeforeFlow node =>
    "FLOW slots of node " ++ node.display ++ " do not precede its data slots"
  | .stated message => message

namespace Failure

def hintText : Option String → String
  | some hint => " (this may be due to " ++ hint ++ ")"
  | none => ""

def message : Failure → String
  | .malformedDocument text position =>
    "Failed to parse workflow JSON at line " ++ toString position.line ++ ", column " ++
      toString position.column ++ ": " ++ text
  | .invalidDocument cause hint =>
    "Workflow document is inconsistent: " ++ cause.message ++ hintText hint
  | .malformedRegistry text => "Failed to parse operation registry: " ++ text
  | .invalidExtension text => "Invalid extension: " ++ text
  | .inaccessible path reason => "Could not access '" ++ path ++ "': " ++ reason
  | .invalidSettings text => "Invalid configuration: " ++ text

/-- An inconsistency without a hint takes this one. -/
def withHint (hint : Option String) : Failure → Failure
  | .invalidDocument cause none => .invalidDocument cause hint
  | other => other

def inconsistent (cause : Inconsistency) : Failure := .invalidDocument cause none

/-- A text that is no document. -/
def ofTrouble (trouble : Trouble) (text : String) : Failure :=
  .malformedDocument (trouble.describe text) ((trouble.position? text).getD ⟨0, 0⟩)

end Failure
end Patchbay
