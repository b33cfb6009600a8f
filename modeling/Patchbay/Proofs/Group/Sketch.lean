import Patchbay.Proofs.Group.Exposure
import Patchbay.Proofs.Sequencing.Slots

/-!
What the description of a group reads of its config: the types of the members and of their slots, and the ends
of the links between members. Configs that agree in this are described alike, by all definitions that know the
same operations for the members.
-/
set_option autoImplicit false

namespace Patchbay

def Node.sketch (node : Node) : Node :=
  { Node.plain (.number 0) node.type with
    inputs := node.inputs.map fun slot => .plain "" slot.type
    outputs := node.outputs.map fun slot => .plain "" slot.type }

def GroupLink.sketch (link : GroupLink) : GroupLink := { link with tail := [] }

namespace GroupConfig

/-- The config reduced to what a description reads. -/
def sketch (config : GroupConfig) : GroupConfig :=
  ⟨config.nodes.map (·.sketch), config.innerLinks.map (·.sketch), []⟩

/-! ### Links between members -/

section Links

variable (config : GroupConfig) (member slot : Nat)

theorem innerLinks_sketch : config.sketch.innerLinks = config.innerLinks.map (·.sketch) := by
  refine List.filter_eq_self.2 fun link inside => ?_
  obtain ⟨inner, listed, rfl⟩ := List.mem_map.1 inside
  exact (List.mem_filter.1 listed).2

theorem linksTo_sketch : config.sketch.linksTo member = (config.linksTo member).map (·.sketch) := by
  rw [linksTo, innerLinks_sketch, List.filter_map]
  rfl

theorem linksFrom_sketch : config.sketch.linksFrom member = (config.linksFrom member).map (·.sketch) := by
  rw [linksFrom, innerLinks_sketch, List.filter_map]
  rfl

theorem feeds_sketch : config.sketch.feeds member slot = config.feeds member slot := by
  rw [feeds, linksTo_sketch, List.any_map]
  rfl

theorem takes_sketch : config.sketch.takes member slot = config.takes member slot := by
  rw [takes, linksFrom_sketch, List.any_map]
  rfl

theorem lowest_sketch (number : GroupLink → Word) (same : ∀ link, number (GroupLink.sketch link) = number link)
    (links : List GroupLink) : lowest number (links.map (·.sketch)) = (lowest number links).map (·.sketch) := by
  rw [lowest, lowest, List.foldl_map, ← List.foldl_hom (Option.map GroupLink.sketch)]
  · rfl
  · intro best link
    cases best with
    | none => rfl
    | some other =>
      simp only [Option.map_some, same]
      split <;> rfl

theorem inputType?_sketch (link : GroupLink) : config.sketch.inputType? link.sketch = config.inputType? link := by
  rw [inputType?, inputType?, sketch, List.getElem?_map, Option.bind_map]
  simp only [Function.comp_def, Node.sketch, List.getElem?_map, Option.map_map, InputSlot.plain, GroupLink.sketch]

theorem outputType?_sketch (link : GroupLink) : config.sketch.outputType? link.sketch = config.outputType? link := by
  rw [outputType?, outputType?, sketch]
  simp only [GroupLink.sketch, Option.bind_eq_bind, List.getElem?_map, Option.bind_map, Function.comp_def, Node.sketch,
    OutputSlot.plain]

end Links

/-! ### The operations of the members -/

section Members

variable (config : GroupConfig) (member : Nat)

theorem boundaryOperation?_sketch (type : String) :
    config.sketch.boundaryOperation? member type = config.boundaryOperation? member type := by
  have inward : (fun link => config.sketch.outputType? (GroupLink.sketch link)) = config.outputType? :=
    funext config.outputType?_sketch
  have outward : (fun link => config.sketch.inputType? (GroupLink.sketch link)) = config.inputType? :=
    funext config.inputType?_sketch
  simp only [boundaryOperation?, linksFrom_sketch, linksTo_sketch, List.isEmpty_map,
    lowest_sketch (·.targetSlot) (fun _ => rfl), lowest_sketch (·.originSlot) (fun _ => rfl), Option.bind_map,
    Function.comp_def, inward, outward]

theorem memberOperations_sketch (r : Registry) (lookup : String → Option Operation) :
    config.sketch.memberOperations r lookup = config.memberOperations r lookup := by
  have nodes : config.sketch.nodes = config.nodes.map (·.sketch) := rfl
  rw [memberOperations, memberOperations, nodes, List.zipIdx_map, List.filterMap_map]
  congr 1
  funext entry
  simp only [Function.comp, Prod.map, id, memberOperation?, Node.sketch, Node.plain, boundaryOperation?_sketch]

theorem memberOperations_congr (r : Registry) {lookup other : String → Option Operation}
    (same : ∀ node ∈ config.nodes, lookup node.type = other node.type) :
    config.memberOperations r lookup = config.memberOperations r other := by
  apply List.filterMap_congr
  rintro ⟨node, index⟩ inside
  have listed := List.mem_of_getElem? (List.mk_mem_zipIdx_iff_getElem?.1 inside)
  simp only [memberOperation?, same node listed]

end Members

end GroupConfig

/-! ### The description -/

theorem ExposedInput.ofInputs_sketch (config : GroupConfig) (r : Registry) (op : Operation) (member : Nat)
    (inputs : List InputDef) (start : Nat) :
    ofInputs config.sketch r op member start inputs = ofInputs config r op member start inputs := by
  induction inputs generalizing start with
  | nil => rfl
  | cons input rest ih => simp only [ofInputs, config.feeds_sketch, ih]

theorem ExposedOutput.ofOutputs_sketch (config : GroupConfig) (op : Operation) (member : Nat) :
    ofOutputs config.sketch op member = ofOutputs config op member := by
  simp only [ofOutputs, config.takes_sketch]

namespace GroupDef

/-- Configs with one sketch make the same operation with the same slots. -/
theorem build_congr (a b : GroupConfig) (name : String) (r : Registry) {lookup other : String → Option Operation}
    (alike : a.withoutFlow.sketch = b.withoutFlow.sketch)
    (same : ∀ node ∈ a.withoutFlow.nodes, lookup node.type = other node.type) :
    (build a name r lookup).operation = (build b name r other).operation ∧
      (build a name r lookup).exposure = (build b name r other).exposure := by
  have members : a.withoutFlow.memberOperations r lookup = b.withoutFlow.memberOperations r other := by
    rw [GroupConfig.memberOperations_congr _ r same, ← GroupConfig.memberOperations_sketch, alike,
      GroupConfig.memberOperations_sketch]
  have inputs : ∀ op member, ExposedInput.ofInputs a.withoutFlow r op member 0 op.inputs =
      ExposedInput.ofInputs b.withoutFlow r op member 0 op.inputs := by
    intro op member
    rw [← ExposedInput.ofInputs_sketch, alike, ExposedInput.ofInputs_sketch]
  have outputs : ∀ op member, ExposedOutput.ofOutputs a.withoutFlow op member =
      ExposedOutput.ofOutputs b.withoutFlow op member := by
    intro op member
    rw [← ExposedOutput.ofOutputs_sketch, alike, ExposedOutput.ofOutputs_sketch]
  simp only [build, members, inputs, outputs, and_self]

end GroupDef

/-! ### Configs without sequencing -/

theorem Node.hasFlowSlot_sketch (node : Node) : node.sketch.hasFlowSlot = node.hasFlowSlot := by
  simp only [hasFlowSlot, flowInputCount, flowOutputCount, sketch, List.countP_map]
  rfl

theorem Node.sketch_withoutLeadingFlow {node : Node} (data : node.hasFlowSlot = false) :
    node.withoutLeadingFlow.sketch = node.sketch := by
  obtain ⟨leadingInputs, leadingOutputs⟩ := Node.leading_eq_zero data
  simp only [sketch, withoutLeadingFlow, leadingInputs, leadingOutputs, List.drop_zero, List.map_map,
    Function.comp_def]

namespace GroupConfig

section DataOnly

variable {config : GroupConfig}

theorem leadingFlow_eq_zero
    (unled : ∀ node ∈ config.nodes, node.leadingFlowInputs = 0 ∧ node.leadingFlowOutputs = 0) (index : Word) :
    config.leadingFlow index = (0, 0) := by
  rw [leadingFlow]
  cases found : config.nodes[index.toNat]? with
  | none => rfl
  | some node =>
    obtain ⟨inputs, outputs⟩ := unled node (List.mem_of_getElem? found)
    simp only [inputs, outputs]

theorem links_withoutFlow_eq_self
    (unled : ∀ node ∈ config.nodes, node.leadingFlowInputs = 0 ∧ node.leadingFlowOutputs = 0)
    (links : ∀ link ∈ config.links, link.isFlow = false) : config.withoutFlow.links = config.links := by
  have all : (config.links.filter fun link => !link.isFlow) = config.links := by
    refine List.filter_eq_self.2 fun link member => ?_
    rw [links link member]
    rfl
  rw [withoutFlow, all]
  exact (List.filterMap_congr fun link _ => GroupLink.withoutFlow?_eq_self (leadingFlow_eq_zero unled) link).trans
    List.filterMap_some

theorem sketch_withoutFlow (data : ∀ node ∈ config.nodes, node.hasFlowSlot = false)
    (links : ∀ link ∈ config.links, link.isFlow = false) : config.withoutFlow.sketch = config.sketch := by
  have kept : config.withoutFlow.links = config.links :=
    links_withoutFlow_eq_self (fun node member => Node.leading_eq_zero (data node member)) links
  have nodes : config.withoutFlow.nodes.map (·.sketch) = config.nodes.map (·.sketch) := by
    rw [withoutFlow, List.map_map]
    exact List.map_congr_left fun node member => Node.sketch_withoutLeadingFlow (data node member)
  rw [sketch, sketch, nodes, innerLinks, innerLinks, kept]

end DataOnly

end GroupConfig

end Patchbay
