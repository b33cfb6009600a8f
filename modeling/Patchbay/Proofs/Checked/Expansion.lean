import Patchbay.Group.Expansion
import Patchbay.Proofs.Checked.Forms

/-!
The expansion of groups with checked steps: the marks of the members that were placed, the values that go into their
widgets, and the data slots of an instance, which are counted behind its sequencing slots. None of the steps fails.
-/
set_option autoImplicit false

namespace Patchbay

/-! ### Marks -/

namespace Definitions

def markMembers? (defs : Definitions) (config : GroupConfig) : Option (List Bool) :=
  config.nodes.zipIdx.foldlM (fun marks entry =>
    if defs.isKnown entry.1.type then changeAt? (fun _ => some true) entry.2 marks else some marks)
    (List.replicate config.nodes.length false)

theorem foldlM_mark (defs : Definitions) (nodes : List Node) (done : List Bool) :
    (nodes.zipIdx done.length).foldlM (fun marks entry =>
      if defs.isKnown entry.1.type then changeAt? (fun _ => some true) entry.2 marks else some marks)
      (done ++ List.replicate nodes.length false) = some (done ++ nodes.map fun node => defs.isKnown node.type) := by
  induction nodes generalizing done with
  | nil => rfl
  | cons node rest ih =>
    have marked : (if defs.isKnown node.type then
        changeAt? (fun _ => some true) done.length (done ++ List.replicate (rest.length + 1) false)
      else some (done ++ List.replicate (rest.length + 1) false)) =
        some ((done ++ [defs.isKnown node.type]) ++ List.replicate rest.length false) := by
      by_cases known : defs.isKnown node.type
      · simp [known, changeAt?, List.replicate_succ]
      · simp [known, List.replicate_succ]
    have later := ih (done ++ [defs.isKnown node.type])
    rw [List.length_append, List.length_singleton] at later
    rw [List.zipIdx_cons, List.foldlM_cons, List.length_cons, marked, Option.bind_eq_bind, Option.bind_some, later,
      List.append_assoc]
    rfl

-- What is marked is what the expansion treats as placed.
theorem markMembers?_eq (defs : Definitions) (config : GroupConfig) : ∃ marks,
    defs.markMembers? config = some marks ∧ ∀ member, marks[member]?.getD false = defs.places config member := by
  refine ⟨_, defs.foldlM_mark config.nodes [], fun member => ?_⟩
  rw [places, List.nil_append, List.getElem?_map]
  cases config.nodes[member]? <;> rfl

end Definitions

/-! ### Values of widgets -/

-- The list is made long enough first.
def setValue? (values : List Json) (index : Nat) (value : Json) : Option (List Json) :=
  changeAt? (fun _ => some value) index (values ++ List.replicate (index + 1 - values.length) Json.null)

theorem setValue?_eq (values : List Json) (index : Nat) (value : Json) :
    setValue? values index value = some (setValue values index value) := by
  have inside : index < (values ++ List.replicate (index + 1 - values.length) Json.null).length := by
    rw [List.length_append, List.length_replicate]
    omega
  rw [setValue?, changeAt?, List.getElem?_eq_getElem inside]
  rfl

-- The node with the value, if it has a widget of that name.
def Node.storeWidget? (node : Node) (op : Operation) (r : Registry) (name : String) (value : Json) :
    Option (Option Node) :=
  match WidgetSpec.indexOf? (op.layout r) name with
  | none => some none
  | some index => (setValue? node.widgetValues index value).map fun values => some { node with widgets := some values }

theorem Node.storeWidget?_eq (node : Node) (op : Operation) (r : Registry) (name : String) (value : Json) :
    node.storeWidget? op r name value = some (node.setWidget? op r name value) := by
  rw [storeWidget?, setWidget?]
  cases WidgetSpec.indexOf? (op.layout r) name with
  | none => rfl
  | some index => simp only [setValue?_eq, Option.map_some]

def passValue? (defs : Definitions) (instanceWidgets : List Widget) (op : Operation) (node : Node)
    (inner : MemberWidget) : Option Node :=
  match instanceWidgets.find? fun widget => widget.name == inner.exposed && !widget.value.isNull with
  | some widget => (node.storeWidget? op defs.registry inner.name widget.value).map (·.getD node)
  | none => some node

theorem passValue?_eq (defs : Definitions) (instanceWidgets : List Widget) (op : Operation) (node : Node)
    (inner : MemberWidget) :
    passValue? defs instanceWidgets op node inner = some (passValue defs instanceWidgets op node inner) := by
  rw [passValue?, passValue]
  cases instanceWidgets.find? fun widget => widget.name == inner.exposed && !widget.value.isNull with
  | none => rfl
  | some widget => simp only [Node.storeWidget?_eq, Option.map_some]

namespace GroupDef

def placeMember? (group : GroupDef) (defs : Definitions) (place : Node) (member : Nat) (template : Node) : Option Node :=
  let node := { template.unlinked with id := place.id.member member }
  match defs.operation? node.type with
  | none => some node
  | some op =>
    (group.exposure.widgetsOf member).foldlM (passValue? defs (place.bindWidgets group.operation defs.registry) op) node

theorem placeMember?_eq (group : GroupDef) (defs : Definitions) (place : Node) (member : Nat) (template : Node) :
    group.placeMember? defs place member template = some (group.placeMember defs place member template) := by
  rw [placeMember?, placeMember]
  cases defs.operation? { template.unlinked with id := place.id.member member }.type with
  | none => rfl
  | some op =>
    have passes : passValue? defs (place.bindWidgets group.operation defs.registry) op = fun node inner =>
        pure (passValue defs (place.bindWidgets group.operation defs.registry) op node inner) := by
      funext node inner
      exact passValue?_eq ..
    simp only [passes]
    exact List.foldlM_pure

def placedMembers? (group : GroupDef) (defs : Definitions) (place : Node) : Option (List Node) :=
  (defs.knownMembers group.config).mapM fun (member, template) => group.placeMember? defs place member template

theorem placedMembers?_eq (group : GroupDef) (defs : Definitions) (place : Node) :
    group.placedMembers? defs place = some (group.placedMembers defs place) := by
  simp only [placedMembers?, placeMember?_eq]
  exact List.mapM_pure

end GroupDef

/-! ### Slots behind others -/

def sub? (a b : Nat) : Option Nat := if b ≤ a then some (a - b) else none

theorem sub?_add (a b : Nat) : sub? (a + b) b = some a := by
  rw [sub?, if_pos (Nat.le_add_left b a), Nat.add_sub_cancel]

section Behind

variable {α β : Type}

-- The entries behind the first ones, each with its place among these.
def foldBehind? (step : β → α × Nat → β) (n : Nat) (list : List α) (start : β) : Option β :=
  (list.zipIdx.drop n).foldlM (fun b entry => (sub? entry.2 n).map fun place => step b (entry.1, place)) start

theorem foldlM_shifted (step : β → α × Nat → β) (n : Nat) (list : List α) (done : Nat) (start : β) :
    (list.zipIdx (done + n)).foldlM (fun b entry => (sub? entry.2 n).map fun place => step b (entry.1, place)) start =
      some ((list.zipIdx done).foldl step start) := by
  induction list generalizing done start with
  | nil => rfl
  | cons x rest ih =>
    rw [List.zipIdx_cons, List.foldlM_cons, sub?_add, Option.map_some, Option.bind_eq_bind, Option.bind_some,
      Nat.add_right_comm, ih]
    rfl

theorem drop_zipIdx (n : Nat) (list : List α) (done : Nat) :
    (list.zipIdx done).drop n = (list.drop n).zipIdx (done + n) := by
  apply List.ext_getElem?
  intro i
  rw [List.getElem?_drop, List.getElem?_zipIdx, List.getElem?_zipIdx, List.getElem?_drop, Nat.add_assoc]

theorem foldBehind?_eq (step : β → α × Nat → β) (n : Nat) (list : List α) (start : β) :
    foldBehind? step n list start = some ((list.drop n).zipIdx.foldl step start) := by
  rw [foldBehind?, drop_zipIdx, foldlM_shifted]

end Behind

/-! ### Instances -/

namespace Graph

def insertNodes? (g : Graph) (position : Nat) (nodes : List Node) : Option Graph :=
  (split? (min position g.nodes.length) g.nodes).map fun (front, back) =>
    { g with nodes := nodes.foldl (fun all node => overwrite node all) (front ++ nodes ++ back) }

theorem insertNodes?_eq (g : Graph) (position : Nat) (nodes : List Node) :
    g.insertNodes? position nodes = some (g.insertNodes position nodes) := by
  have back : g.nodes.drop (min position g.nodes.length) = g.nodes.drop position := by
    by_cases inside : position ≤ g.nodes.length
    · rw [Nat.min_eq_left inside]
    · have outside := Nat.le_of_not_le inside
      rw [Nat.min_eq_right outside, List.drop_length, List.drop_of_length_le outside]
  rw [insertNodes?, split?_eq (Nat.min_le_right ..), insertNodes, back, ← List.take_take, List.take_length]
  rfl

-- The marks say of a member what `Definitions.places` says of it.
def expandInstance? (g : Graph) (defs : Definitions) (place : Node) (group : GroupDef) : Option Graph := do
  let _ ← defs.markMembers? group.config
  let members ← group.placedMembers? defs place
  let g ← g.insertNodes? ((g.position? place.id).getD g.nodes.length) members
  let g := group.config.links.foldl (addInnerLink defs group.config place.id) g
  let g ← foldBehind? (moveInput defs group place.id) place.flowInputCount place.inputs g
  let g ← foldBehind? (moveOutput defs group place.id) place.flowOutputCount place.outputs g
  return g.removeNode place.id

theorem expandInstance?_eq (g : Graph) (defs : Definitions) (place : Node) (group : GroupDef) :
    g.expandInstance? defs place group = some (g.expandInstance defs place group) := by
  obtain ⟨marks, marked, _⟩ := defs.markMembers?_eq group.config
  simp only [expandInstance?, marked, GroupDef.placedMembers?_eq, insertNodes?_eq, foldBehind?_eq, Option.bind_eq_bind,
    Option.bind_some]
  rfl

end Graph

def expandQueue? (defs : Definitions) (state : ExpansionState) (queue : List PendingInstance) : Option ExpansionState :=
  match queue with
  | [] => some state
  | entry :: queue =>
    match _found : defs.expandable? state.graph entry with
    | none => expandQueue? defs state queue
    | some (node, group) =>
      match state.graph.expandInstance? defs node group with
      | none => none
      | some graph =>
        expandQueue? defs ⟨graph, state.missing ++ defs.unknownTypes group.config, state.expanded + 1⟩
          (queue ++ defs.nestedInstances graph entry group)
termination_by defs.work queue
decreasing_by
  · exact Definitions.work_tail_lt
  · exact Definitions.work_append_lt _found

theorem expandQueue?_eq (defs : Definitions) (state : ExpansionState) (queue : List PendingInstance) :
    expandQueue? defs state queue = some (expandQueue defs state queue) := by
  fun_induction expandQueue defs state queue with
  | case1 state => rw [expandQueue?]
  | case2 state entry queue kept ih =>
    rw [expandQueue?]
    split
    · exact ih
    · next found =>
      rw [kept] at found
      cases found
  | case3 state entry queue node group found graph ih =>
    rw [expandQueue?]
    split
    · next kept =>
      rw [found] at kept
      cases kept
    · next again =>
      rw [found] at again
      cases again
      rw [Graph.expandInstance?_eq]
      exact ih

def Graph.expandGroups? (g : Graph) (defs : Definitions) (missing : List String) : Option ExpansionState :=
  expandQueue? defs ⟨g, missing, 0⟩ ((g.nodeIds.filter (defs.isInstance g)).map (⟨·, []⟩))

theorem Graph.expandGroups?_eq (g : Graph) (defs : Definitions) (missing : List String) :
    g.expandGroups? defs missing = some (g.expandGroups defs missing) := expandQueue?_eq ..

end Patchbay
