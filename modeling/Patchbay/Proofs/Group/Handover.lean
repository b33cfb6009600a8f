import Patchbay.Proofs.Group.Layout
import Patchbay.Proofs.Group.Rounds
import Patchbay.Proofs.Group.Settling
import Patchbay.Proofs.Primitive.Supply

/-!
How the widget values of an instance get to its members. A member takes the values that the instance has for it, and
keeps those of its template elsewhere. Nothing but a later turn for the same id takes them away again, and through
groups in groups a value comes to the innermost member.
-/
set_option autoImplicit false

namespace Patchbay

/-! ### Widgets by their names -/

theorem find?_mapIdx {α β : Type} {xs : List α} {f : Nat → α → β} {p : β → Bool} {q : α → Bool}
    (same : ∀ i x, p (f i x) = q x) :
    (xs.mapIdx f).find? p = (xs.findIdx? q).bind fun i => xs[i]?.map (f i) := by
  induction xs generalizing f with
  | nil => rfl
  | cons x rest ih =>
    rw [List.mapIdx_cons, List.find?_cons, List.findIdx?_cons, same]
    cases hit : q x with
    | true => rfl
    | false =>
      rw [ih fun i y => same (i + 1) y]
      simp only [Bool.false_eq_true, if_false, Option.bind_map]
      rfl

namespace Node

/-- The value of the first widget of this name. -/
def firstValue? (node : Node) (op : Operation) (r : Registry) (name : String) : Option Json :=
  ((node.bindWidgets op r).find? (·.name == name)).map (·.value)

/-- The value that an instance hands on under this name: that of the first widget of this name that has one. -/
def heldValue? (node : Node) (op : Operation) (r : Registry) (name : String) : Option Json :=
  ((node.bindWidgets op r).find? fun widget => widget.name == name && !widget.value.isNull).map (·.value)

theorem firstValue?_eq (node : Node) (op : Operation) (r : Registry) (name : String) : node.firstValue? op r name =
    (WidgetSpec.indexOf? (op.layout r) name).map fun index => (node.widgetValues[index]?).getD .null := by
  rw [firstValue?, bindWidgets, find?_mapIdx (q := fun spec => spec.name == name) fun _ _ => rfl, WidgetSpec.indexOf?]
  cases found : (op.layout r).findIdx? fun spec => spec.name == name with
  | none => rfl
  | some index =>
    obtain ⟨below, _⟩ := List.findIdx?_eq_some_iff_getElem.1 found
    rw [Option.bind_some, List.getElem?_eq_getElem below]
    rfl

theorem unlinked_member (template : Node) (id : NodeId) (widgets : Option (List Json)) :
    ({ template.unlinked with id := id, widgets := widgets } : Node).unlinked =
      { template.unlinked with id := id, widgets := widgets } := by
  simp only [unlinked, List.map_map, Function.comp_def, InputSlot.unlinked, OutputSlot.unlinked]

theorem heldValue?_of_firstValue? {node : Node} {op : Operation} {r : Registry} {name : String} {value : Json}
    (first : node.firstValue? op r name = some value) (given : value.isNull = false) :
    node.heldValue? op r name = some value := by
  obtain ⟨widget, found, rfl⟩ := Option.map_eq_some_iff.1 first
  obtain ⟨named, before, after, split, others⟩ := List.find?_eq_some_iff_append.1 found
  refine Option.map_eq_some_iff.2 ⟨widget, List.find?_eq_some_iff_append.2 ⟨?_, before, after, split, ?_⟩, rfl⟩
  · rw [named, given]
    rfl
  · intro other inside
    have unnamed := others other inside
    rw [Bool.not_eq_true'] at unnamed ⊢
    rw [unnamed]
    rfl

theorem given_of_heldValue? {node : Node} {op : Operation} {r : Registry} {name : String} {value : Json}
    (held : node.heldValue? op r name = some value) : value.isNull = false := by
  obtain ⟨widget, found, rfl⟩ := Option.map_eq_some_iff.1 held
  have meets := List.find?_some found
  rw [Bool.and_eq_true, Bool.not_eq_true'] at meets
  exact meets.2

theorem firstValue?_congr {a b : Node} (widgets : a.widgets = b.widgets) (op : Operation) (r : Registry)
    (name : String) : a.firstValue? op r name = b.firstValue? op r name := by
  rw [firstValue?_eq, firstValue?_eq, widgetValues, widgetValues, widgets]

theorem heldValue?_congr {a b : Node} (widgets : a.widgets = b.widgets) (op : Operation) (r : Registry)
    (name : String) : a.heldValue? op r name = b.heldValue? op r name := by
  rw [heldValue?, heldValue?, bindWidgets, bindWidgets, widgetValues, widgetValues, widgets]

end Node

/-! ### What a member takes -/

namespace GroupDef

section Member

variable (group : GroupDef) (defs : Definitions) (place : Node) (member : Nat)

/-- The values that an instance has for the widgets of a member, with their places among those of the member. -/
def handed (op : Operation) : List WidgetWrite :=
  (group.exposure.widgetsOf member).filterMap fun inner =>
    (place.heldValue? group.operation defs.registry inner.exposed).bind fun value =>
      (WidgetSpec.indexOf? (op.layout defs.registry) inner.name).map fun index => ⟨place.id.member member, index, value⟩

theorem passValue_eq_store (op : Operation) (node : Node) (inner : MemberWidget) :
    passValue defs (place.bindWidgets group.operation defs.registry) op node inner =
      { node with widgets := storeAll (((place.heldValue? group.operation defs.registry inner.exposed).bind fun value =>
        (WidgetSpec.indexOf? (op.layout defs.registry) inner.name).map fun index =>
          (⟨node.id, index, value⟩ : WidgetWrite)).toList) node.id node.widgets } := by
  rw [passValue, Node.heldValue?]
  cases (place.bindWidgets group.operation defs.registry).find? fun widget =>
      widget.name == inner.exposed && !widget.value.isNull with
  | none => rfl
  | some widget =>
    simp only [Node.setWidget?, Option.map_some, Option.bind_some]
    cases WidgetSpec.indexOf? (op.layout defs.registry) inner.name with
    | none => rfl
    | some index =>
      simp only [Option.map_some, Option.getD_some, Option.toList_some, storeAll, List.foldl_cons, List.foldl_nil,
        WidgetWrite.store, if_true]
      rfl

theorem foldl_passValue_eq_store (op : Operation) (inners : List MemberWidget) (node : Node) :
    inners.foldl (passValue defs (place.bindWidgets group.operation defs.registry) op) node =
      { node with widgets := storeAll (inners.filterMap fun inner =>
        (place.heldValue? group.operation defs.registry inner.exposed).bind fun value =>
          (WidgetSpec.indexOf? (op.layout defs.registry) inner.name).map fun index =>
            (⟨node.id, index, value⟩ : WidgetWrite)) node.id node.widgets } := by
  induction inners generalizing node with
  | nil => rfl
  | cons inner rest ih =>
    rw [List.foldl_cons, passValue_eq_store, ih, ← List.singleton_append, List.filterMap_append, storeAll_append]
    rfl

theorem placeMember_eq_store {template : Node} {op : Operation} (acts : defs.operation? template.type = some op) :
    group.placeMember defs place member template =
      { template.unlinked with
        id := place.id.member member
        widgets := storeAll (group.handed defs place member op) (place.id.member member) template.widgets } := by
  have known : defs.operation? template.unlinked.type = some op := acts
  simp only [placeMember, known]
  exact group.foldl_passValue_eq_store defs place op _ _

theorem mem_handed {op : Operation} {write : WidgetWrite} : write ∈ group.handed defs place member op ↔
    ∃ inner ∈ group.exposure.widgetsOf member, ∃ value index,
      place.heldValue? group.operation defs.registry inner.exposed = some value ∧
        WidgetSpec.indexOf? (op.layout defs.registry) inner.name = some index ∧
        write = ⟨place.id.member member, index, value⟩ := by
  simp only [handed, List.mem_filterMap, Option.bind_eq_some_iff, Option.map_eq_some_iff]
  constructor
  · rintro ⟨inner, recorded, value, held, index, there, rfl⟩
    exact ⟨inner, recorded, value, index, held, there, rfl⟩
  · rintro ⟨inner, recorded, value, index, held, there, rfl⟩
    exact ⟨inner, recorded, value, held, index, there, rfl⟩

end Member

/-- A node takes over from an instance as the member of its group at this position: from the template all but the id
and the links, and of the widgets those for which the instance has a value take that. -/
structure HandsOver (group : GroupDef) (defs : Definitions) (place : Node) (member : Nat) (template : Node)
    (op : Operation) (node : Node) : Prop where
  recorded : ∀ inner ∈ group.exposure.widgetsOf member, node.firstValue? op defs.registry inner.name =
    (template.firstValue? op defs.registry inner.name).map fun kept =>
      (place.heldValue? group.operation defs.registry inner.exposed).getD kept
  others : ∀ index, (∀ inner ∈ group.exposure.widgetsOf member,
      WidgetSpec.indexOf? (op.layout defs.registry) inner.name ≠ some index) →
    (node.bindWidgets op defs.registry)[index]? = (template.bindWidgets op defs.registry)[index]?
  rest : ∃ widgets, node.unlinked = { template.unlinked with id := place.id.member member, widgets := widgets }

theorem HandsOver.congr {group : GroupDef} {defs : Definitions} {place : Node} {member : Nat} {template : Node}
    {op : Operation} {node other : Node} (hands : group.HandsOver defs place member template op node)
    (same : other.unlinked = node.unlinked) : group.HandsOver defs place member template op other := by
  have widgets : other.widgets = node.widgets := (congrArg Node.widgets same :)
  constructor
  · intro inner inside
    rw [Node.firstValue?_congr widgets]
    exact hands.recorded inner inside
  · intro index unrecorded
    rw [Node.bindWidgets, Node.widgetValues, widgets]
    exact hands.others index unrecorded
  · rw [same]
    exact hands.rest

section Placed

variable {group : GroupDef} {defs : Definitions} (place : Node) {member : Nat}
  (named : ∀ inner ∈ group.exposure.widgetsOf member, inner.exposed = ExposedInput.exposedName member inner.name)

include named

-- Recorded widgets that are stored at one place have one name, so they take the same value.
theorem handed_agree {op : Operation} {inner : MemberWidget} (recorded : inner ∈ group.exposure.widgetsOf member)
    {index : Nat} (there : WidgetSpec.indexOf? (op.layout defs.registry) inner.name = some index) {write : WidgetWrite}
    (listed : write ∈ group.handed defs place member op) (same : write.index = index) :
    place.heldValue? group.operation defs.registry inner.exposed = some write.value := by
  obtain ⟨other, alsoRecorded, value, stored, held, thereToo, rfl⟩ := (group.mem_handed defs place member).1 listed
  obtain rfl : stored = index := same
  have names := WidgetSpec.indexOf?_inj there thereToo
  rw [named inner recorded, names, ← named other alsoRecorded]
  exact held

theorem handsOver_placeMember {template : Node} {op : Operation} (acts : defs.operation? template.type = some op) :
    group.HandsOver defs place member template op (group.placeMember defs place member template) := by
  have placed := group.placeMember_eq_store defs place member acts
  have values : (group.placeMember defs place member template).widgetValues =
      (storeAll (group.handed defs place member op) (place.id.member member) template.widgets).getD [] := by
    rw [placed, Node.widgetValues]
  have own : ∀ write ∈ group.handed defs place member op, write.node = place.id.member member := by
    intro write listed
    obtain ⟨_, _, _, _, _, _, rfl⟩ := (group.mem_handed defs place member).1 listed
    rfl
  constructor
  · intro inner recorded
    rw [Node.firstValue?_eq, Node.firstValue?_eq, Option.map_map]
    refine Option.map_congr fun index there => ?_
    rw [values, Function.comp]
    cases held : place.heldValue? group.operation defs.registry inner.exposed with
    | some value =>
      have one : ∀ write ∈ group.handed defs place member op, write.node = place.id.member member →
          write.index = index → write.value = value := by
        intro write listed _ same
        have agree := handed_agree place named recorded there listed same
        exact Option.some.inj (agree.symm.trans held)
      have written : ∃ write ∈ group.handed defs place member op,
          write.node = place.id.member member ∧ write.index = index :=
        ⟨_, (group.mem_handed defs place member).2 ⟨inner, recorded, value, index, held, there, rfl⟩, rfl, rfl⟩
      rw [storeAll_stored one template.widgets (.inl written)]
      rfl
    | none =>
      refine storeAll_kept (fun write listed _ same => ?_) template.widgets
      have agree := handed_agree place named recorded there listed same
      rw [held] at agree
      cases agree
  · intro index unrecorded
    have apart : ∀ write ∈ group.handed defs place member op, write.node = place.id.member member →
        write.index ≠ index := by
      intro write listed _ same
      obtain ⟨inner, recorded, _, stored, _, there, rfl⟩ := (group.mem_handed defs place member).1 listed
      obtain rfl : stored = index := same
      exact unrecorded inner recorded there
    simp only [Node.bindWidgets, List.getElem?_mapIdx, values]
    rw [storeAll_kept apart template.widgets]
    rfl
  · rw [placed, Node.unlinked_member]
    exact ⟨_, rfl⟩

end Placed

end GroupDef

/-! ### Groups of a document -/

namespace Definitions

section WithGroups

variable {r : Registry} {configs : Table GroupConfig} {group : GroupDef}

theorem exposed_of_withGroups (inside : group ∈ (withGroups r configs).groups.values) (member : Nat) :
    ∀ inner ∈ group.exposure.widgetsOf member, inner.exposed = ExposedInput.exposedName member inner.name := by
  have each : ∀ group ∈ (withGroups r configs).groups.values, ∀ inner ∈ group.exposure.widgets,
      inner.exposed = ExposedInput.exposedName inner.member inner.name := by
    refine withGroups_values r configs fun entry _ r lookup inner listed => ?_
    rw [GroupDef.widgets_build] at listed
    obtain ⟨⟨member, op⟩, _, own⟩ := List.mem_flatMap.1 listed
    obtain ⟨input, _, rfl⟩ := List.mem_map.1 own
    rfl
  intro inner own
  obtain ⟨listed, same⟩ := List.mem_filter.1 own
  rw [← eq_of_beq same]
  exact each group inside inner listed

/-- What is recorded for a member are widgets of its operation, unless the group was described while the member was
known as a pass-through node only. -/
theorem firstValue?_of_withGroups {type : String} (found : (withGroups r configs).group? type = some group)
    {member : Nat} {template : Node} (known : (member, template) ∈ (withGroups r configs).knownMembers group.config)
    {op : Operation} (acts : (withGroups r configs).operation? template.type = some op)
    (settled : r.isPassThrough template.type → (r.operation? template.type).isSome) {inner : MemberWidget}
    (recorded : inner ∈ group.exposure.widgetsOf member) (node : Node) :
    (node.firstValue? op (withGroups r configs).registry inner.name).isSome := by
  obtain ⟨name, configured, rfl⟩ := (isSome_group?_withGroups r configs type).1 (by rw [found]; rfl)
  obtain ⟨config, stored⟩ := Option.isSome_iff_exists.1 configured
  obtain ⟨earlier, described, sees⟩ := withGroups_sees (r := r) stored
  rw [found, Option.some_inj] at described
  rw [described] at known recorded
  obtain ⟨own, acting, input, declared, widget, rfl⟩ := (GroupDef.mem_widgetsOf_build ..).1 recorded
  have there : config.withoutFlow.nodes[member]? = some template := getElem?_of_knownMembers known
  obtain ⟨stored, inside, rfl⟩ := List.mem_map.1 (List.mem_of_getElem? there)
  rw [GroupConfig.operationAt?, there, Option.bind_some, GroupConfig.memberOperation?] at acting
  have same : own = op := by
    cases seen : earlier.operation? stored.type with
    | some other =>
      have shows : ¬ Hides r configs name stored.type := by
        intro hides
        rw [sees.hidden stored inside hides] at seen
        cases seen
      rw [show earlier.operation? stored.withoutLeadingFlow.type = some other from seen] at acting
      have final := (sees.shown stored inside shows).symm.trans (seen.trans acting)
      exact Option.some.inj (final.symm.trans acts)
    | none =>
      rw [show earlier.operation? stored.withoutLeadingFlow.type = none from seen, sees.registry] at acting
      by_cases through : r.isPassThrough stored.type
      · obtain ⟨plain, defined⟩ := Option.isSome_iff_exists.1 (settled through)
        rw [operation?, sees.registry, show r.operation? stored.type = some plain from defined] at seen
        cases seen
      · cases (if_neg through).symm.trans acting
  rw [same] at declared
  rw [sees.registry, ← registry_withGroups r configs] at widget
  obtain ⟨index, there⟩ := op.exists_indexOf? declared widget
  rw [Node.firstValue?_eq, there]
  rfl

end WithGroups

end Definitions

/-! ### Turns -/

/-- A turn of the run that begins with `start`: an instance comes to the front of the queue and makes way for its
members. -/
structure Definitions.Turn (defs : Definitions) (start : ExpansionState × List PendingInstance) where
  state : ExpansionState
  entry : PendingInstance
  queue : List PendingInstance
  place : Node
  group : GroupDef
  reached : defs.Reaches start (state, entry :: queue)
  found : defs.expandable? state.graph entry = some (place, group)

namespace Definitions.Turn

variable {defs : Definitions} {start : ExpansionState × List PendingInstance} (turn : defs.Turn start)

def graph : Graph := turn.state.graph.expandInstance defs turn.place turn.group

/-- The state and the queue after the turn. -/
def next : ExpansionState × List PendingInstance :=
  (⟨turn.graph, turn.state.missing ++ defs.unknownTypes turn.group.config, turn.state.expanded + 1⟩,
    turn.queue ++ defs.nestedInstances turn.graph turn.entry turn.group)

/-- The node that a member becomes. -/
def member (k : Nat) (template : Node) : Node := turn.group.placeMember defs turn.place k template

/-- The turn takes the node of this id away, or places one. -/
def Claims (id : NodeId) : Prop :=
  id = turn.place.id ∨ ∃ k template, (k, template) ∈ defs.knownMembers turn.group.config ∧ id = turn.place.id.member k

theorem reached_next : defs.Reaches start turn.next :=
  turn.reached.tail (.replace turn.state turn.entry turn.queue turn.place turn.group turn.found)

theorem mem_values : turn.group ∈ defs.groups.values :=
  mem_values_of_group? (expandable?_eq_some turn.found).2.1

theorem type_member (k : Nat) (template : Node) : (turn.member k template).type = template.type := by
  obtain ⟨widgets, placed⟩ := turn.group.placeMember_eq defs turn.place k template
  exact (congrArg Node.type placed :)

/-- Each known member stands in the graph after the turn. -/
theorem node?_member {k : Nat} {template : Node} (known : (k, template) ∈ defs.knownMembers turn.group.config) :
    (turn.graph.node? (turn.place.id.member k)).map (·.unlinked) = some (turn.member k template).unlinked := by
  have distinct : ((turn.group.placedMembers defs turn.place).map (·.id)).Nodup :=
    (turn.group.placedMembers_displays defs turn.place).of_map _
  have listed : turn.member k template ∈ turn.group.placedMembers defs turn.place :=
    List.mem_map.2 ⟨(k, template), known, rfl⟩
  obtain ⟨widgets, placed⟩ := turn.group.placeMember_eq defs turn.place k template
  have named : (turn.member k template).id = turn.place.id.member k := congrArg Node.id placed
  have first := (find?_eq_some_iff_of_nodup Node.id distinct (turn.place.id.member k) (turn.member k template)).2
    ⟨listed, named⟩
  rw [graph, Graph.bare_find?_expandInstance, if_neg (turn.place.id.member_ne_self k), first]
  rfl

theorem node?_of_not_claims {id : NodeId} (free : ¬ turn.Claims id) :
    (turn.graph.node? id).map (·.unlinked) = (turn.state.graph.node? id).map (·.unlinked) := by
  have absent : (turn.group.placedMembers defs turn.place).find? (·.id == id) = none := by
    rw [List.find?_eq_none]
    intro node placed same
    obtain ⟨k, template, _, known, rfl⟩ := turn.group.mem_placedMembers defs turn.place placed
    exact free (.inr ⟨k, template, known, (eq_of_beq same).symm⟩)
  rw [graph, Graph.bare_find?_expandInstance, if_neg fun here => free (.inl here), absent, Option.none_or]

end Definitions.Turn

namespace Definitions

section Run

variable {defs : Definitions} {start after : ExpansionState × List PendingInstance}

/-- But for its links a node stays as it is until a turn claims its id. -/
theorem node?_of_reaches (reached : defs.Reaches start after) (id : NodeId) :
    (after.1.graph.node? id).map (·.unlinked) = (start.1.graph.node? id).map (·.unlinked) ∨
      ∃ turn : defs.Turn start, turn.Claims id ∧
        (turn.state.graph.node? id).map (·.unlinked) = (start.1.graph.node? id).map (·.unlinked) := by
  induction reached with
  | refl => exact .inl rfl
  | tail earlier step ih =>
    rcases ih with same | claimed
    · cases step with
      | pass => exact .inl same
      | replace state entry queue node group found =>
        by_cases claims : (⟨state, entry, queue, node, group, earlier, found⟩ : defs.Turn start).Claims id
        · exact .inr ⟨_, claims, same⟩
        · exact .inl ((Turn.node?_of_not_claims _ claims).trans same)
    · exact .inr claimed

/-- Whatever stands in the graph stood there at the start, or is a member that a turn has placed. -/
theorem origin_of_reaches (reached : defs.Reaches start after) {id : NodeId} {node : Node}
    (found : after.1.graph.node? id = some node) :
    (∃ old, start.1.graph.node? id = some old ∧ old.unlinked = node.unlinked) ∨
      ∃ (turn : defs.Turn start) (k : Nat) (template : Node),
        (k, template) ∈ defs.knownMembers turn.group.config ∧ (turn.member k template).unlinked = node.unlinked := by
  induction reached generalizing node with
  | refl => exact .inl ⟨node, found, rfl⟩
  | tail earlier step ih =>
    cases step with
    | pass => exact ih found
    | replace state entry queue place group expandable =>
      obtain ⟨turn, own⟩ : ∃ turn : defs.Turn start,
          turn = ⟨state, entry, queue, place, group, earlier, expandable⟩ := ⟨_, rfl⟩
      have there : turn.graph.node? id = some node := own ▸ found
      by_cases claims : turn.Claims id
      · rcases claims with here | ⟨k, template, known, rfl⟩
        · have gone := turn.state.graph.bare_find?_expandInstance defs turn.place turn.group id
          rw [if_pos here] at gone
          rw [Turn.graph] at there
          rw [there] at gone
          cases gone
        · have placed := turn.node?_member known
          rw [there, Option.map_some, Option.some_inj] at placed
          exact .inr ⟨turn, k, template, known, placed.symm⟩
      · have kept := turn.node?_of_not_claims claims
        rw [there, Option.map_some] at kept
        obtain ⟨old, before, same⟩ := Option.map_eq_some_iff.1 kept.symm
        have earlierFound : (state, entry :: queue).1.graph.node? id = some old := by
          rw [own] at before
          exact before
        rcases ih earlierFound with ⟨first, inside, alike⟩ | ⟨other, k, template, known, alike⟩
        · exact .inl ⟨first, inside, alike.trans same⟩
        · exact .inr ⟨other, k, template, known, alike.trans same⟩

end Run

end Definitions

/-! ### Groups in groups -/

/-- A widget of an instance stands for one of a node that the run places: of a member, or, where that is an instance
itself whose type is no operation of the registry, for what its own widget stands for. -/
inductive Definitions.StandsFor (defs : Definitions) (start : ExpansionState × List PendingInstance)
    (outer : defs.Turn start) : String → Node → String → Prop
  | member (k : Nat) (template : Node) (inner : MemberWidget)
      (known : (k, template) ∈ defs.knownMembers outer.group.config)
      (recorded : inner ∈ outer.group.exposure.widgetsOf k) :
      StandsFor defs start outer inner.exposed (outer.member k template) inner.name
  | nested (name : String) (node : Node) (turn : defs.Turn start) (k : Nat) (template : Node) (inner : MemberWidget)
      (before : StandsFor defs start outer name node inner.exposed) (same : turn.place.unlinked = node.unlinked)
      (single : defs.registry.operation? turn.place.type = none)
      (known : (k, template) ∈ defs.knownMembers turn.group.config)
      (recorded : inner ∈ turn.group.exposure.widgetsOf k) :
      StandsFor defs start outer name (turn.member k template) inner.name

section Chains

variable {defs : Definitions} {r : Registry} {configs : Table GroupConfig} (made : defs = .withGroups r configs)
  {start : ExpansionState × List PendingInstance}

include made

theorem Definitions.Turn.handsOver (turn : defs.Turn start) (k : Nat) {template : Node} {op : Operation}
    (acts : defs.operation? template.type = some op) :
    turn.group.HandsOver defs turn.place k template op (turn.member k template) := by
  refine GroupDef.handsOver_placeMember turn.place ?_ acts
  have inside := turn.mem_values
  subst made
  exact exposed_of_withGroups inside k

theorem Definitions.Turn.isSome_firstValue? (turn : defs.Turn start) {k : Nat} {template : Node}
    (known : (k, template) ∈ defs.knownMembers turn.group.config) {op : Operation}
    (acts : defs.operation? template.type = some op)
    (settled : defs.registry.isPassThrough template.type → (defs.registry.operation? template.type).isSome)
    {inner : MemberWidget} (recorded : inner ∈ turn.group.exposure.widgetsOf k) :
    (template.firstValue? op defs.registry inner.name).isSome := by
  have described := (expandable?_eq_some turn.found).2.1
  subst made
  rw [registry_withGroups] at settled
  exact firstValue?_of_withGroups described known acts settled recorded template

theorem Definitions.Turn.firstValue?_member (turn : defs.Turn start) {k : Nat} {template : Node}
    (known : (k, template) ∈ defs.knownMembers turn.group.config) {op : Operation}
    (acts : defs.operation? template.type = some op)
    (settled : defs.registry.isPassThrough template.type → (defs.registry.operation? template.type).isSome)
    {inner : MemberWidget} (recorded : inner ∈ turn.group.exposure.widgetsOf k) {value : Json}
    (held : turn.place.heldValue? turn.group.operation defs.registry inner.exposed = some value) :
    (turn.member k template).firstValue? op defs.registry inner.name = some value := by
  obtain ⟨kept, first⟩ := Option.isSome_iff_exists.1 (turn.isSome_firstValue? made known acts settled recorded)
  rw [(turn.handsOver made k acts).recorded inner recorded, first, held]
  rfl

/-- A value of the outermost instance reaches the innermost member. -/
theorem Definitions.StandsFor.reaches {outer : defs.Turn start} {name inner : String} {node : Node}
    (stands : defs.StandsFor start outer name node inner) {value : Json}
    (held : outer.place.heldValue? outer.group.operation defs.registry name = some value) {op : Operation}
    (acts : defs.operation? node.type = some op)
    (settled : defs.registry.isPassThrough node.type → (defs.registry.operation? node.type).isSome) :
    node.firstValue? op defs.registry inner = some value := by
  induction stands generalizing op with
  | member k template inner known recorded =>
    rw [outer.type_member] at acts settled
    exact outer.firstValue?_member made known acts settled recorded held
  | nested name node turn k template inner before same single known recorded ih =>
    obtain ⟨there, described, normal, _⟩ := expandable?_eq_some turn.found
    have sameType : turn.place.type = node.type := (congrArg Node.type same :)
    have sameWidgets : turn.place.widgets = node.widgets := (congrArg Node.widgets same :)
    have own : defs.operation? node.type = some turn.group.operation := by
      rw [← sameType, operation?, single, described]
      rfl
    have real : defs.registry.isPassThrough node.type → (defs.registry.operation? node.type).isSome := by
      intro through
      rw [← sameType] at through
      rw [Registry.participation_of_isPassThrough through] at normal
      cases normal
    have first := ih held own real
    have given : value.isNull = false := Node.given_of_heldValue? held
    have handed : turn.place.heldValue? turn.group.operation defs.registry inner.exposed = some value := by
      rw [Node.heldValue?_congr sameWidgets]
      exact Node.heldValue?_of_firstValue? first given
    rw [turn.type_member] at acts settled
    exact turn.firstValue?_member made known acts settled recorded handed

end Chains

namespace Graph

/-- In a tidy graph no member takes the place of a node that is there. -/
theorem Tidy.eq_of_claims {defs : Definitions} {gone : NodeId → Prop} {start : ExpansionState × List PendingInstance}
    {turn : defs.Turn start} (tidy : Tidy defs gone turn.state.graph) {id : NodeId} {node : Node}
    (there : turn.state.graph.node? id = some node) (claims : turn.Claims id) : id = turn.place.id := by
  rcases claims with here | ⟨k, template, _, rfl⟩
  · exact here
  · obtain ⟨found, described, _⟩ := Definitions.expandable?_eq_some turn.found
    have hosts : defs.isInstance turn.state.graph turn.place.id := by
      rw [id_of_node? found, Definitions.isInstance, found, Option.any_some, described]
      rfl
    have named : turn.state.graph.Names (turn.place.id.member k) := by
      rw [← id_of_node? there]
      exact .inl (List.mem_map_of_mem (List.mem_of_find?_eq_some there))
    exact absurd (turn.place.id.isUnder_member k) (tidy.outside _ hosts _ (.inr named))

/-- How the widget values of instances are handed on while a graph is expanded. -/
structure HandsValuesOn (g : Graph) (defs : Definitions) (missing : List String) : Prop where
  -- At its turn an instance hands its values to every member that has a definition.
  members : ∀ (turn : defs.Turn (g.expansionStart defs missing)) (k : Nat) (template : Node) (op : Operation),
    (k, template) ∈ defs.knownMembers turn.group.config → defs.operation? template.type = some op →
    ∃ node, turn.graph.node? (turn.place.id.member k) = some node ∧
      turn.group.HandsOver defs turn.place k template op node
  recorded : ∀ (turn : defs.Turn (g.expansionStart defs missing)) (k : Nat) (template : Node) (op : Operation),
    (k, template) ∈ defs.knownMembers turn.group.config → defs.operation? template.type = some op →
    (defs.registry.isPassThrough template.type → (defs.registry.operation? template.type).isSome) →
    ∀ inner ∈ turn.group.exposure.widgetsOf k, (template.firstValue? op defs.registry inner.name).isSome
  -- The member keeps them to the end, unless a later turn replaces it or places another node under its id.
  stays : ∀ (turn : defs.Turn (g.expansionStart defs missing)) (k : Nat) (template : Node) (op : Operation),
    (k, template) ∈ defs.knownMembers turn.group.config → defs.operation? template.type = some op →
    (∃ node, (g.expandGroups defs missing).graph.node? (turn.place.id.member k) = some node ∧
      turn.group.HandsOver defs turn.place k template op node) ∨
    ∃ later : defs.Turn turn.next, later.Claims (turn.place.id.member k)
  -- In a tidy graph only the first can happen.
  tidily : Tidy defs (fun _ => False) g → (∀ group ∈ defs.groups.values, group.SlotsFit) →
    (∀ group ∈ defs.groups.values, group.config.FeedsOnce) → defs.StaysBelowTop (g.expansionStart defs missing) →
    ∀ (turn : defs.Turn (g.expansionStart defs missing)) (k : Nat) (template : Node) (op : Operation),
      (k, template) ∈ defs.knownMembers turn.group.config → defs.operation? template.type = some op →
      ¬ defs.Replaces turn.next (turn.place.id.member k) →
      ∃ node, (g.expandGroups defs missing).graph.node? (turn.place.id.member k) = some node ∧
        turn.group.HandsOver defs turn.place k template op node
  -- An instance comes from the document, or was given its values as a member of another one.
  origin : ∀ turn : defs.Turn (g.expansionStart defs missing),
    (∃ old, g.node? turn.place.id = some old ∧ old.unlinked = turn.place.unlinked) ∨
      ∃ (outer : defs.Turn (g.expansionStart defs missing)) (k : Nat) (template : Node),
        (k, template) ∈ defs.knownMembers outer.group.config ∧
          (outer.member k template).unlinked = turn.place.unlinked
  -- Through instances whose types are groups only, a value gets from the outermost one to the innermost member.
  chains : ∀ (outer : defs.Turn (g.expansionStart defs missing)) (name inner : String) (node : Node),
    defs.StandsFor (g.expansionStart defs missing) outer name node inner →
    ∀ value, outer.place.heldValue? outer.group.operation defs.registry name = some value →
    ∀ op, defs.operation? node.type = some op →
      (defs.registry.isPassThrough node.type → (defs.registry.operation? node.type).isSome) →
      node.firstValue? op defs.registry inner = some value

/-- In any graph each instance hands its values to its members, and these to theirs. -/
theorem expandGroups_hands_on {defs : Definitions} {r : Registry} {configs : Table GroupConfig}
    (made : defs = Definitions.withGroups r configs) (g : Graph) (missing : List String) :
    g.HandsValuesOn defs missing := by
  have takes : ∀ (turn : defs.Turn (g.expansionStart defs missing)) (k : Nat) (template : Node) (op : Operation),
      defs.operation? template.type = some op → ∀ h : Graph, (h.node? (turn.place.id.member k)).map (·.unlinked) =
        some (turn.member k template).unlinked → ∃ node, h.node? (turn.place.id.member k) = some node ∧
          turn.group.HandsOver defs turn.place k template op node := by
    intro turn k template op acts h same
    obtain ⟨node, found, alike⟩ := Option.map_eq_some_iff.1 same
    exact ⟨node, found, (turn.handsOver made k acts).congr alike⟩
  have rest : ∀ turn : defs.Turn (g.expansionStart defs missing),
      defs.Reaches turn.next (g.expandGroups defs missing, []) := by
    intro turn
    have same : g.expandGroups defs missing = expandQueue defs turn.next.1 turn.next.2 :=
      Definitions.expandQueue_of_reaches turn.reached_next
    rw [same]
    exact defs.reaches_expandQueue _ _
  constructor
  · intro turn k template op known acts
    exact takes turn k template op acts turn.graph (turn.node?_member known)
  · intro turn k template op known acts settled inner listed
    exact turn.isSome_firstValue? made known acts settled listed
  · intro turn k template op known acts
    rcases Definitions.node?_of_reaches (rest turn) (turn.place.id.member k) with same | ⟨later, claims, _⟩
    · exact .inl (takes turn k template op acts _ (same.trans (turn.node?_member known)))
    · exact .inr ⟨later, claims⟩
  · intro tidy fits once room turn k template op known acts stays
    rcases Definitions.node?_of_reaches (rest turn) (turn.place.id.member k) with same | ⟨later, claims, same⟩
    · exact takes turn k template op acts _ (same.trans (turn.node?_member known))
    · exfalso
      have exposes : ∀ group ∈ defs.groups.values, group.Exposes := by
        rw [made]
        exact Definitions.withGroups_exposes r configs
      have start : Tidy defs (fun _ => False) (g.expansionStart defs missing).1.graph := tidy
      have tidyLater := start.run exposes fits once (turn.reached_next.trans later.reached) room
      obtain ⟨node, there, _⟩ := Option.map_eq_some_iff.1 (same.trans (turn.node?_member known))
      refine stays ⟨later.state, later.entry, later.queue, later.place, later.group, later.reached, later.found, ?_⟩
      rw [tidyLater.eq_of_claims there claims]
      exact (id_of_node? (Definitions.expandable?_eq_some later.found).1).symm
  · intro turn
    obtain ⟨found, _⟩ := Definitions.expandable?_eq_some turn.found
    rw [← id_of_node? found] at found
    exact Definitions.origin_of_reaches turn.reached found
  · intro outer name inner node stands value held op acts settled
    exact stands.reaches made held acts settled

-- A sampler in a group in a group, and an instance that sets its steps.
def stepOperation : Operation := (Operation.named "Sampler").addRequired "steps" (.text "INT")

def stepRegistry : Registry := Registry.standard.insert stepOperation

def stepSampler : Node := { Node.plain (.number 0) "Sampler" with widgets := some [.ofNat 20] }

def innerConfig : GroupConfig := ⟨[stepSampler], [], []⟩

def outermost : GroupConfig := ⟨[.plain (.number 0) "workflow/inner"], [], []⟩

def stepDefinitions (r : Registry) : Definitions :=
  .withGroups r (.ofList [("inner", innerConfig), ("outer", outermost)])

def stepPlace (values : List Json) : Node := { Node.plain (.number 1) "workflow/outer" with widgets := some values }

def stepping (values : List Json) : Graph := ⟨[stepPlace values], [], 0⟩

theorem stepping_expansionStart : (stepping [.ofNat 7]).expansionStart (stepDefinitions stepRegistry) [] =
    (⟨stepping [.ofNat 7], [], 0⟩, [⟨.number 1, []⟩]) := by
  have queue : ((stepping [.ofNat 7]).expansionStart (stepDefinitions stepRegistry) []).2 = [⟨.number 1, []⟩] := by
    decide +kernel
  exact congrArg (Prod.mk _) queue

def outerTurn : (stepDefinitions stepRegistry).Turn
    ((stepping [.ofNat 7]).expansionStart (stepDefinitions stepRegistry) []) where
  state := ⟨stepping [.ofNat 7], [], 0⟩
  entry := ⟨.number 1, []⟩
  queue := []
  place := stepPlace [.ofNat 7]
  group := (stepDefinitions stepRegistry).describe "outer" outermost
  reached := stepping_expansionStart ▸ .refl
  found := by decide +kernel

theorem outerTurn_queue : outerTurn.next = (outerTurn.next.1, [⟨.name "1:0", ["outer"]⟩]) := by
  have queue : outerTurn.next.2 = [⟨.name "1:0", ["outer"]⟩] := by decide +kernel
  exact congrArg (Prod.mk _) queue

def innerTurn : (stepDefinitions stepRegistry).Turn
    ((stepping [.ofNat 7]).expansionStart (stepDefinitions stepRegistry) []) where
  state := outerTurn.next.1
  entry := ⟨.name "1:0", ["outer"]⟩
  queue := []
  place := { Node.plain (.name "1:0") "workflow/inner" with widgets := some [.ofNat 7] }
  group := (stepDefinitions stepRegistry).describe "inner" innerConfig
  reached := outerTurn_queue ▸ outerTurn.reached_next
  found := by decide +kernel

theorem expandGroups_hands_on_stepping :
    (stepping [.ofNat 7]).HandsValuesOn (stepDefinitions stepRegistry) [] ∧
      (stepDefinitions stepRegistry).StandsFor _ outerTurn "0:0:steps" (innerTurn.member 0 stepSampler) "steps" ∧
      (innerTurn.member 0 stepSampler).firstValue? stepOperation (stepDefinitions stepRegistry).registry "steps" =
        some (.ofNat 7) ∧
      ((stepping [.ofNat 7]).expandGroups (stepDefinitions stepRegistry) []).graph.nodes.map
        (fun node => (node.id.display, node.widgetValues)) = [("1:0:0", [.ofNat 7])] := by
  have hands : (stepping [.ofNat 7]).HandsValuesOn (stepDefinitions stepRegistry) [] :=
    expandGroups_hands_on rfl (stepping [.ofNat 7]) []
  have outer : (stepDefinitions stepRegistry).StandsFor _ outerTurn "0:0:steps"
      (outerTurn.member 0 (.plain (.number 0) "workflow/inner")) "0:steps" :=
    .member 0 (.plain (.number 0) "workflow/inner") ⟨0, "0:steps", "0:0:steps"⟩ (by decide +kernel) (by decide +kernel)
  have stands : (stepDefinitions stepRegistry).StandsFor _ outerTurn "0:0:steps" (innerTurn.member 0 stepSampler)
      "steps" :=
    .nested "0:0:steps" _ innerTurn 0 stepSampler ⟨0, "steps", "0:steps"⟩ outer (by decide +kernel) (by decide +kernel)
      (by decide +kernel) (by decide +kernel)
  have value := hands.chains outerTurn "0:0:steps" "steps" _ stands (.ofNat 7) (by decide +kernel) stepOperation
    (by decide +kernel) (by decide +kernel)
  exact ⟨hands, stands, value, by decide +kernel⟩

-- A registry with an operation of the type of the inner group.
def shadowRegistry : Registry :=
  stepRegistry.insert (((Operation.named "workflow/inner").addRequired "cfg" (.text "INT")).addRequired "0:steps"
    (.text "INT"))

/-- The instance within gets its values as the operation of the registry stores them, and hands them on as the group
does: the value that the outermost instance has for the steps of the sampler does not reach it. -/
theorem expandGroups_hands_on_shadowed :
    let defs := stepDefinitions shadowRegistry
    let given := stepping [.ofNat 5, .ofNat 7]
    (∃ outer ∈ defs.group? "workflow/outer", ∃ inner ∈ defs.group? "workflow/inner",
      ⟨0, "0:steps", "0:0:steps"⟩ ∈ outer.exposure.widgetsOf 0 ∧
        ⟨0, "steps", "0:steps"⟩ ∈ inner.exposure.widgetsOf 0 ∧
        (stepPlace [.ofNat 5, .ofNat 7]).heldValue? outer.operation shadowRegistry "0:0:steps" = some (.ofNat 7)) ∧
      (given.expandGroups defs []).graph.nodes.map (fun node => (node.id.display, node.type)) =
        [("1:0:0", "Sampler")] ∧
      ∃ node ∈ (given.expandGroups defs []).graph.nodes, ∃ op ∈ defs.operation? node.type,
        node.firstValue? op shadowRegistry "steps" = some (.ofNat 5) := by
  intro defs given
  have outer : defs.group? "workflow/outer" = some (defs.describe "outer" outermost) := by decide +kernel
  have inner : defs.group? "workflow/inner" = some (defs.describe "inner" innerConfig) := by decide +kernel
  have left : (given.expandGroups defs []).graph.nodes =
      [{ Node.plain (.name "1:0:0") "Sampler" with widgets := some [.ofNat 5] }] := by decide +kernel
  refine ⟨⟨_, outer, _, inner, by decide +kernel, by decide +kernel, by decide +kernel⟩, by decide +kernel, ?_⟩
  rw [left]
  exact ⟨_, List.mem_singleton_self _, stepOperation, by decide +kernel, by decide +kernel⟩

end Graph

end Patchbay
