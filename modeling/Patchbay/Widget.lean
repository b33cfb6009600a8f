import Patchbay.Registry

/-!
Widgets: the literal values of a node, stored in one list in the order in which its operation declares
them.
-/
set_option autoImplicit false

namespace Patchbay

/-- The name of the companion widget that says how a seed changes between runs. -/
def controlName : String := "control_after_generate"

/-- A place in a node's list of widget values. A companion widget has no input and is not sent to the
engine. -/
structure WidgetSpec where
  name : String
  isSent : Bool
  input : Option InputDef
deriving DecidableEq

/-- A widget with its stored value. -/
structure Widget where
  name : String
  value : Json
  isSent : Bool
deriving DecidableEq

namespace InputDef

def isSeedName (name : String) : Bool := name == "seed" || name == "noise_seed"

/-- An integer that is a seed by its name or by an option. -/
def isSeed (input : InputDef) : Bool :=
  input.type == "INT" &&
    (isSeedName input.name || (input.option? controlName).bind Json.bool? == some true)

/-- The places an input takes: one, and one more for the companion of a seed. -/
def widgetSpecs (input : InputDef) : List WidgetSpec :=
  let own : WidgetSpec := ⟨input.name, true, some input⟩
  if input.isSeed then [own, ⟨controlName, false, none⟩] else [own]

end InputDef

/-- The widgets of an operation in the order in which their values are stored. -/
def Operation.layout (op : Operation) (r : Registry) : List WidgetSpec :=
  (op.inputs.filter r.isWidget).flatMap (·.widgetSpecs)

/-- The place of the first widget of this name. -/
def WidgetSpec.indexOf? (layout : List WidgetSpec) (name : String) : Option Nat :=
  layout.findIdx? (·.name == name)

/-- Stores a value at a place, with `null` at the places before it that do not exist yet. -/
def setValue (values : List Json) (index : Nat) (value : Json) : List Json :=
  (values ++ List.replicate (index + 1 - values.length) Json.null).set index value

theorem getElem?_setValue_self (values : List Json) (index : Nat) (value : Json) :
    (setValue values index value)[index]? = some value := by
  unfold setValue
  rw [List.getElem?_set_self]
  simp only [List.length_append, List.length_replicate]
  omega

namespace Node

def widgetValues (node : Node) : List Json := node.widgets.getD []

/-- The widgets of a node with their values; a place without a value counts as `null`. -/
def bindWidgets (node : Node) (op : Operation) (r : Registry) : List Widget :=
  (op.layout r).mapIdx fun index spec =>
    ⟨spec.name, (node.widgetValues[index]?).getD .null, spec.isSent⟩

/-- Stores a value in the named widget, if the node has one of that name. -/
def setWidget? (node : Node) (op : Operation) (r : Registry) (name : String) (value : Json) :
    Option Node :=
  (WidgetSpec.indexOf? (op.layout r) name).map fun index =>
    { node with widgets := some (setValue node.widgetValues index value) }

end Node
end Patchbay
