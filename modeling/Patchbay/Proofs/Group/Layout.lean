import Patchbay.Group.Expansion
import Patchbay.Proofs.Group.Account

/-!
The widgets of a group. Whether an input is a widget is asked twice: of the input of a member, and of the input
that the group declares for it under another name. Where both answers agree, the group stores its values in the
order of its recorded widgets, and a recorded name leads to the place of its own value.
-/
set_option autoImplicit false

namespace Patchbay

/-! ### Declarations under another name -/

theorem Fields.get?_putAll (key : String) (more done : Fields) (distinct : (more.map Prod.fst).Nodup) :
    get? key (putAll done more) = (get? key more).or (get? key done) := by
  induction more generalizing done with
  | nil => rfl
  | cons entry rest ih =>
    obtain ⟨fresh, others⟩ := List.nodup_cons.1 distinct
    have next : putAll done (entry :: rest) = putAll (put entry.1 entry.2 done) rest := rfl
    rw [next, ih _ others, get?_put, get?]
    by_cases same : entry.1 = key
    · rw [if_pos same, if_pos same, get?_eq_none_iff.2 (same ▸ fresh)]
      rfl
    · rw [if_neg same, if_neg same]

namespace InputDef

theorem ofSpec_rename (name other : String) (spec : Json) (required optional : Bool) :
    ofSpec name spec required = { ofSpec other spec optional with name := name, required := required } := by
  unfold ofSpec
  split
  next type _ _ => cases type <;> rfl

/-- The declaration of a seed in a group differs in its options only. -/
theorem ofSpec_seedSpec (name : String) (spec : Json) (required : Bool) :
    ofSpec name (seedSpec spec) required =
      { ofSpec name spec required with
        options := Fields.putAll [(controlName, .bool true)] (ofSpec name spec required).options } := by
  have typed : ∀ (type : Json) (options : Fields) (more : List Json),
      ofSpec name (.array (type :: .object options :: more)) required =
        { ofSpec name (.array [type]) required with options := options } := by
    intro type options more
    cases type <;> rfl
  cases spec with
  | array parts =>
    rw [seedSpec, typed]
    simp only [ofSpec, List.head?_cons, Option.getD_some]
    cases parts.head?.getD .null <;> rfl
  | _ => rfl

end InputDef

theorem Operation.spec?_of_mem {op : Operation} (distinct : (op.inputs.map (·.name)).Nodup) {input : InputDef}
    (declared : input ∈ op.inputs) :
    ∃ spec required, op.spec? input.name = some spec ∧ input = .ofSpec input.name spec required := by
  have names : op.inputs.map (·.name) = (op.input.required ++ op.input.optional).map Prod.fst := by
    have named : ∀ (required : Bool) (fields : Fields),
        (fields.map fun field => InputDef.ofSpec field.1 field.2 required).map (·.name) = fields.map Prod.fst := by
      intro required fields
      rw [List.map_map]
      refine List.map_congr_left fun field _ => ?_
      exact congrArg InputDef.name (InputDef.ofSpec_rename field.1 "" field.2 required required)
    rw [List.map_append, ← named true, ← named false, ← List.map_append]
    rfl
  have found : ∀ name spec, (name, spec) ∈ op.input.required ++ op.input.optional → op.spec? name = some spec := by
    intro name spec there
    rw [spec?, ← Fields.get?_append]
    exact Fields.get?_of_mem (names ▸ distinct) there
  have nameOf : ∀ name spec required, (InputDef.ofSpec name spec required).name = name := fun name spec required =>
    congrArg InputDef.name (InputDef.ofSpec_rename name "" spec required required)
  rcases List.mem_append.1 declared with required | optional
  · obtain ⟨⟨name, spec⟩, there, rfl⟩ := List.mem_map.1 required
    refine ⟨spec, true, ?_, ?_⟩
    · rw [nameOf]
      exact found name spec (List.mem_append_left _ there)
    · rw [nameOf]
  · obtain ⟨⟨name, spec⟩, there, rfl⟩ := List.mem_map.1 optional
    refine ⟨spec, false, ?_, ?_⟩
    · rw [nameOf]
      exact found name spec (List.mem_append_right _ there)
    · rw [nameOf]

/-! ### Places in a layout -/

/-- The names of the widgets whose values are sent, in the order in which they are stored. -/
def Operation.sentNames (op : Operation) (r : Registry) : List String :=
  ((op.layout r).filter (·.isSent)).map (·.name)

theorem Operation.sentNames_eq (op : Operation) (r : Registry) :
    op.sentNames r = (op.inputs.filter r.isWidget).map (·.name) := by
  rw [sentNames, layout, List.filter_flatMap, List.map_flatMap]
  have own : ∀ input : InputDef, (input.widgetSpecs.filter (·.isSent)).map (·.name) = [input.name] := by
    intro input
    unfold InputDef.widgetSpecs
    split <;> rfl
  simp only [own]
  exact List.map_eq_flatMap.symm

theorem Operation.mem_layout {op : Operation} {r : Registry} {spec : WidgetSpec} (inside : spec ∈ op.layout r) :
    spec = ⟨controlName, false, none⟩ ∨
      ∃ input ∈ op.inputs, r.isWidget input ∧ spec = ⟨input.name, true, some input⟩ := by
  obtain ⟨input, listed, own⟩ := List.mem_flatMap.1 inside
  obtain ⟨declared, widget⟩ := List.mem_filter.1 listed
  unfold InputDef.widgetSpecs at own
  split at own
  · rcases List.mem_cons.1 own with here | companion
    · exact .inr ⟨input, declared, widget, here⟩
    · exact .inl (List.mem_singleton.1 companion)
  · exact .inr ⟨input, declared, widget, List.mem_singleton.1 own⟩

theorem Operation.exists_indexOf? (op : Operation) {r : Registry} {input : InputDef} (declared : input ∈ op.inputs)
    (widget : r.isWidget input) : ∃ index, WidgetSpec.indexOf? (op.layout r) input.name = some index := by
  have there : ⟨input.name, true, some input⟩ ∈ op.layout r := by
    refine List.mem_flatMap.2 ⟨input, List.mem_filter.2 ⟨declared, widget⟩, ?_⟩
    unfold InputDef.widgetSpecs
    split <;> exact List.mem_cons_self
  rw [← Option.isSome_iff_exists, WidgetSpec.indexOf?, List.findIdx?_isSome, List.any_eq_true]
  exact ⟨_, there, beq_self_eq_true _⟩

section Places

variable {op : Operation} {r : Registry} {input : InputDef} (distinct : (op.inputs.map (·.name)).Nodup)
  (declared : input ∈ op.inputs) (free : input.name ≠ controlName)

include distinct declared free

/-- Where inputs have distinct names, a widget that has not that of a companion is found at its own place. -/
theorem Operation.indexOf?_layout (widget : r.isWidget input) :
    ∃ index, WidgetSpec.indexOf? (op.layout r) input.name = some index ∧
      (op.layout r)[index]? = some ⟨input.name, true, some input⟩ := by
  obtain ⟨index, found⟩ := op.exists_indexOf? declared widget
  refine ⟨index, found, ?_⟩
  obtain ⟨bound, named, _⟩ := List.findIdx?_eq_some_iff_getElem.1 found
  rw [List.getElem?_eq_getElem bound]
  rcases Operation.mem_layout (List.getElem_mem bound) with companion | ⟨other, inside, _, own⟩
  · rw [companion] at named
    exact absurd (eq_of_beq named).symm free
  · rw [own] at named ⊢
    rw [List.inj_on_of_nodup_map distinct inside declared (eq_of_beq named)]

theorem Operation.indexOf?_layout_of_link (link : ¬ r.isWidget input) :
    WidgetSpec.indexOf? (op.layout r) input.name = none := by
  rw [WidgetSpec.indexOf?, List.findIdx?_eq_none_iff]
  intro spec inside
  rw [beq_eq_false_iff_ne]
  rcases Operation.mem_layout inside with rfl | ⟨other, there, widget, rfl⟩
  · exact free.symm
  · intro named
    rw [List.inj_on_of_nodup_map distinct there declared named] at widget
    exact link widget

end Places

/-! ### Inputs of members -/

/-- An input that a member declares, with the operation that the member acts as. -/
structure MemberInput where
  member : Nat
  op : Operation
  input : InputDef
deriving DecidableEq

namespace MemberInput

def exposedName (e : MemberInput) : String := ExposedInput.exposedName e.member e.input.name

/-- The input that a group declares for it. -/
def exposed (e : MemberInput) : InputDef := .ofSpec e.exposedName (e.op.exposedSpec e.input) true

def widget (e : MemberInput) : MemberWidget := ⟨e.member, e.input.name, e.exposedName⟩

theorem name_exposed (e : MemberInput) : e.exposed.name = e.exposedName :=
  congrArg InputDef.name (InputDef.ofSpec_rename e.exposedName "" (e.op.exposedSpec e.input) true true)

end MemberInput

namespace GroupConfig

section Shown

variable (config : GroupConfig) (r : Registry) (lookup : String → Option Operation)

/-- The inputs of all members that show outside, in the order of the members. -/
def shown : List MemberInput :=
  (config.memberOperations r lookup).flatMap fun (member, op) =>
    (config.shownInputs r member op).map fun input => ⟨member, op, input⟩

/-- No member declares two inputs of one name, and no input states an option twice. -/
structure DeclaresOnce : Prop where
  inputs : config.InputsDistinct r lookup
  options : ∀ member op, config.operationAt? r lookup member = some op →
    ∀ input ∈ op.inputs, (input.options.map Prod.fst).Nodup

variable {config r lookup}

theorem declares_of_mem_shown {e : MemberInput} (inside : e ∈ config.shown r lookup) :
    config.operationAt? r lookup e.member = some e.op ∧ e.input ∈ e.op.inputs := by
  obtain ⟨⟨member, op⟩, acts, listed⟩ := List.mem_flatMap.1 inside
  obtain ⟨input, shows, rfl⟩ := List.mem_map.1 listed
  refine ⟨(mem_memberOperations_iff ..).1 acts, ?_⟩
  obtain ⟨⟨_, place⟩, kept, rfl⟩ := List.mem_map.1 shows
  exact List.mem_of_getElem? (List.mk_mem_zipIdx_iff_getElem?.1 (List.mem_filter.1 kept).1)

theorem declaresOnce_of_members (each : ∀ entry ∈ config.memberOperations r lookup,
    (entry.2.inputs.map (·.name)).Nodup ∧ ∀ input ∈ entry.2.inputs, (input.options.map Prod.fst).Nodup) :
    config.DeclaresOnce r lookup where
  inputs member op acts := (each (member, op) ((mem_memberOperations_iff ..).2 acts)).1
  options member op acts := (each (member, op) ((mem_memberOperations_iff ..).2 acts)).2

theorem exposedNames_shown (distinct : config.InputsDistinct r lookup) :
    ((config.shown r lookup).map (·.exposedName)).Nodup := by
  have names := GroupDef.shownNames_distinct config r lookup distinct
  simp only [List.map_flatMap, List.map_map] at names
  simpa only [shown, List.map_flatMap, List.map_map, Function.comp_def, MemberInput.exposedName] using names

end Shown

end GroupConfig

/-- The table of widget types says of an input of a member what it says of the input that the group declares. -/
def Registry.KeepsRole (r : Registry) (e : MemberInput) : Prop :=
  e.input.forcesLink ∨ e.input.choices.isSome ∨ e.input.type ∈ r.widgetTypes ∨
    (e.input.type ++ ":" ++ e.input.name ∈ r.widgetTypes ↔ e.input.type ++ ":" ++ e.exposedName ∈ r.widgetTypes)

instance (r : Registry) (e : MemberInput) : Decidable (r.KeepsRole e) := by
  unfold Registry.KeepsRole
  infer_instance

namespace MemberInput

variable {e : MemberInput}

/-- A group declares the member's own input again, under another name and with the companion of a seed. -/
theorem exposed_eq (names : (e.op.inputs.map (·.name)).Nodup) (declared : e.input ∈ e.op.inputs) :
    e.exposed = { e.input with
      name := e.exposedName
      required := true
      options := if InputDef.isSeedName e.input.name then Fields.putAll [(controlName, .bool true)] e.input.options
        else e.input.options } := by
  obtain ⟨spec, required, found, own⟩ := Operation.spec?_of_mem names declared
  have renamed : InputDef.ofSpec e.exposedName spec true =
      { e.input with name := e.exposedName, required := true } := by
    rw [InputDef.ofSpec_rename e.exposedName e.input.name spec true required, ← own]
  rw [exposed, Operation.exposedSpec, found, Option.getD_some]
  split
  · rw [InputDef.ofSpec_seedSpec, renamed]
  · exact renamed

theorem forcesLink_exposed (names : (e.op.inputs.map (·.name)).Nodup) (declared : e.input ∈ e.op.inputs)
    (options : (e.input.options.map Prod.fst).Nodup) : e.exposed.forcesLink = e.input.forcesLink := by
  have kept : e.exposed.option? "forceInput" = e.input.option? "forceInput" := by
    rw [exposed_eq names declared, InputDef.option?]
    split
    · rw [Fields.get?_putAll _ _ _ options]
      exact Option.or_none
    · rfl
  rw [InputDef.forcesLink, InputDef.forcesLink, kept]

theorem isWidget_exposed_iff {r : Registry} (names : (e.op.inputs.map (·.name)).Nodup)
    (declared : e.input ∈ e.op.inputs) (options : (e.input.options.map Prod.fst).Nodup) :
    r.isWidget e.input = r.isWidget e.exposed ↔ r.KeepsRole e := by
  have choices : e.exposed.choices = e.input.choices := by rw [exposed_eq names declared]
  have type : e.exposed.type = e.input.type := by rw [exposed_eq names declared]
  rw [Registry.isWidget, Registry.isWidget, forcesLink_exposed names declared options, choices, type, name_exposed,
    Registry.KeepsRole]
  by_cases forces : e.input.forcesLink
  · simp [forces]
  · by_cases offers : e.input.choices.isSome
    · simp [offers]
    · by_cases typed : e.input.type ∈ r.widgetTypes
      · simp [typed]
      · simp [forces, offers, typed, List.contains_eq_mem, decide_eq_decide]

end MemberInput

/-! ### The widgets of a group -/

/-- What one entry contributes to a list, read back by its key. -/
theorem filter_flatMap_of_mem {α β : Type} {entries : List α} {key : α → Nat} {contents : α → List β} {keyOf : β → Nat}
    (ascending : entries.Pairwise fun a b => key a < key b) (own : ∀ entry, ∀ x ∈ contents entry, keyOf x = key entry)
    {entry : α} (inside : entry ∈ entries) :
    ((entries.flatMap contents).filter fun x => keyOf x == key entry) = contents entry := by
  have apart : ∀ {others : List α}, (∀ other ∈ others, key other ≠ key entry) →
      ((others.flatMap contents).filter fun x => keyOf x == key entry) = [] := by
    intro others different
    rw [List.filter_eq_nil_iff]
    intro x listed
    obtain ⟨other, there, within⟩ := List.mem_flatMap.1 listed
    rw [own other x within, beq_iff_eq]
    exact different other there
  have whole : ((contents entry).filter fun x => keyOf x == key entry) = contents entry :=
    List.filter_eq_self.2 fun x within => beq_iff_eq.2 (own entry x within)
  obtain ⟨before, after, rfl⟩ := List.append_of_mem inside
  obtain ⟨_, behind, less⟩ := List.pairwise_append.1 ascending
  rw [List.flatMap_append, List.flatMap_cons, List.filter_append, List.filter_append, whole,
    apart fun other there => Nat.ne_of_lt (less other there entry List.mem_cons_self),
    apart fun other there => Nat.ne_of_gt ((List.pairwise_cons.1 behind).1 other there), List.nil_append,
    List.append_nil]

theorem ExposedInput.widgets_ofInputs (config : GroupConfig) (r : Registry) (op : Operation) (member : Nat) :
    (ofInputs config r op member 0 op.inputs).filterMap (·.memberWidget?) =
      (op.inputs.filter r.isWidget).map fun input => ⟨member, input.name, exposedName member input.name⟩ := by
  have placed : op.inputs.filter r.isWidget =
      (op.inputs.zipIdx.filter fun entry => r.isWidget entry.1).map Prod.fst := by
    rw [← Function.comp_def, ← List.filter_map, List.zipIdx_map_fst]
  rw [ofInputs_eq, List.filterMap_filterMap, placed, List.map_map, ← List.filterMap_eq_filter, List.map_filterMap]
  apply List.filterMap_congr
  rintro ⟨input, place⟩ _
  by_cases widget : r.isWidget input
  · simp [widget, Option.guard, memberWidget?, name]
  · simp [widget, Option.guard, memberWidget?]

theorem GroupConfig.filter_shownInputs (config : GroupConfig) (r : Registry) (member : Nat) (op : Operation) :
    (config.shownInputs r member op).filter r.isWidget = op.inputs.filter r.isWidget := by
  have whole : op.inputs.filter r.isWidget = (op.inputs.zipIdx.map Prod.fst).filter r.isWidget := by
    rw [List.zipIdx_map_fst]
  rw [whole, shownInputs, List.filter_map, List.filter_filter, List.filter_map]
  congr 1
  refine List.filter_congr fun entry _ => ?_
  cases r.isWidget entry.1 <;> simp_all

namespace GroupDef

section Build

variable (config : GroupConfig) (name : String) (r : Registry) (lookup : String → Option Operation)

theorem widgets_build : (build config name r lookup).exposure.widgets =
    (config.withoutFlow.memberOperations r lookup).flatMap fun (member, op) =>
      (op.inputs.filter r.isWidget).map fun input =>
        ⟨member, input.name, ExposedInput.exposedName member input.name⟩ := by
  simp only [build, List.filterMap_flatMap, ExposedInput.widgets_ofInputs]

theorem widgets_build_shown : (build config name r lookup).exposure.widgets =
    ((config.withoutFlow.shown r lookup).filter fun e => r.isWidget e.input).map (·.widget) := by
  rw [widgets_build, GroupConfig.shown, List.filter_flatMap, List.map_flatMap]
  refine List.flatMap_congr fun (member, op) _ => ?_
  dsimp only
  rw [← GroupConfig.filter_shownInputs config.withoutFlow r member, List.filter_map, List.map_map]
  rfl

/-- The recorded widgets of a member are those of its operation. -/
theorem widgetsOf_build {member : Nat} {op : Operation}
    (acts : config.withoutFlow.operationAt? r lookup member = some op) :
    (build config name r lookup).exposure.widgetsOf member =
      (op.inputs.filter r.isWidget).map fun input =>
        ⟨member, input.name, ExposedInput.exposedName member input.name⟩ := by
  rw [Exposure.widgetsOf, widgets_build]
  refine filter_flatMap_of_mem (config.withoutFlow.memberOperations_ascending r lookup) (fun entry inner within => ?_)
    ((GroupConfig.mem_memberOperations_iff ..).2 acts)
  obtain ⟨input, _, rfl⟩ := List.mem_map.1 within
  rfl

theorem mem_widgetsOf_build {member : Nat} {inner : MemberWidget} :
    inner ∈ (build config name r lookup).exposure.widgetsOf member ↔
      ∃ op, config.withoutFlow.operationAt? r lookup member = some op ∧ ∃ input ∈ op.inputs, r.isWidget input ∧
        inner = ⟨member, input.name, ExposedInput.exposedName member input.name⟩ := by
  simp only [Exposure.widgetsOf, widgets_build, List.mem_filter, List.mem_flatMap, List.mem_map, beq_iff_eq,
    Prod.exists, GroupConfig.mem_memberOperations_iff]
  constructor
  · rintro ⟨⟨_, op, acts, input, ⟨declared, widget⟩, rfl⟩, rfl⟩
    exact ⟨op, acts, input, declared, widget, rfl⟩
  · rintro ⟨op, acts, input, declared, widget, rfl⟩
    exact ⟨⟨_, op, acts, input, ⟨declared, widget⟩, rfl⟩, rfl⟩

theorem groupInputs_build (distinct : config.withoutFlow.InputsDistinct r lookup) :
    (build config name r lookup).operation.inputs = (config.withoutFlow.shown r lookup).map (·.exposed) := by
  have required : (build config name r lookup).operation.inputs =
      (build config name r lookup).operation.input.required.map fun field => .ofSpec field.1 field.2 true :=
    List.append_nil _
  rw [required, required_build config name r lookup distinct]
  simp only [GroupConfig.shown, List.map_flatMap, List.map_map]
  rfl

end Build

end GroupDef

/-- Two selections from a list with distinct names show the same names only if they agree on every entry. -/
theorem map_filter_eq_iff {α β : Type} {name : α → β} {xs : List α} (distinct : (xs.map name).Nodup) (p q : α → Bool) :
    (xs.filter p).map name = (xs.filter q).map name ↔ ∀ x ∈ xs, p x = q x := by
  have leads : ∀ p q : α → Bool, (xs.filter p).map name = (xs.filter q).map name → ∀ x ∈ xs, p x → q x := by
    intro p q same x inside chosen
    have listed : name x ∈ (xs.filter q).map name := same ▸ List.mem_map_of_mem (List.mem_filter.2 ⟨inside, chosen⟩)
    obtain ⟨y, kept, named⟩ := List.mem_map.1 listed
    obtain ⟨there, holds⟩ := List.mem_filter.1 kept
    rw [← List.inj_on_of_nodup_map distinct there inside named]
    exact holds
  constructor
  · intro same x inside
    rw [Bool.eq_iff_iff]
    exact ⟨leads p q same x inside, leads q p same.symm x inside⟩
  · intro agree
    rw [List.filter_congr agree]

theorem ExposedInput.exposedName_ne_controlName (member : Nat) (name : String) :
    exposedName member name ≠ controlName := by
  intro same
  have colon : ':' ∈ (exposedName member name).toList := by simp [exposedName]
  rw [same] at colon
  revert colon
  decide

/-- The values that a group sends are those of its recorded widgets, in their order, exactly where every input that
shows keeps its role under the name that the group gives to it. A recorded name leads to the place of its value
exactly where its own input does. -/
theorem Definitions.describe_widgets (defs : Definitions) (name : String) (config : GroupConfig)
    (once : config.withoutFlow.DeclaresOnce defs.registry defs.operation?) :
    let shown := config.withoutFlow.shown defs.registry defs.operation?
    let group := defs.describe name config
    let layout := group.operation.layout defs.registry
    group.exposure.widgets = (shown.filter fun e => defs.registry.isWidget e.input).map (·.widget) ∧
      layout = (shown.filter fun e => defs.registry.isWidget e.exposed).flatMap (·.exposed.widgetSpecs) ∧
      (group.operation.sentNames defs.registry = group.exposure.widgets.map (·.exposed) ↔
        ∀ e ∈ shown, defs.registry.KeepsRole e) ∧
      ∀ e ∈ shown, defs.registry.isWidget e.input →
        (defs.registry.KeepsRole e → ∃ index, WidgetSpec.indexOf? layout e.exposedName = some index ∧
          layout[index]? = some ⟨e.exposedName, true, some e.exposed⟩) ∧
        (¬ defs.registry.KeepsRole e → WidgetSpec.indexOf? layout e.exposedName = none) := by
  intro shown group layout
  have inputs : group.operation.inputs = shown.map (·.exposed) := GroupDef.groupInputs_build _ _ _ _ once.inputs
  have widgets : group.exposure.widgets = (shown.filter fun e => defs.registry.isWidget e.input).map (·.widget) :=
    GroupDef.widgets_build_shown _ _ _ _
  have distinct : (shown.map (·.exposedName)).Nodup := GroupConfig.exposedNames_shown once.inputs
  have role : ∀ e ∈ shown, defs.registry.isWidget e.input = defs.registry.isWidget e.exposed ↔
      defs.registry.KeepsRole e := by
    intro e inside
    obtain ⟨acts, declared⟩ := GroupConfig.declares_of_mem_shown inside
    exact MemberInput.isWidget_exposed_iff (once.inputs _ _ acts) declared (once.options _ _ acts _ declared)
  have named : ∀ entries : List MemberInput, (entries.map (·.exposed)).map (·.name) = entries.map (·.exposedName) := by
    intro entries
    rw [List.map_map]
    exact List.map_congr_left fun e _ => e.name_exposed
  refine ⟨widgets, ?_, ?_, ?_⟩
  · rw [show layout = (group.operation.inputs.filter defs.registry.isWidget).flatMap (·.widgetSpecs) from rfl, inputs,
      List.filter_map, List.flatMap_map]
    rfl
  · have recorded : ((shown.filter fun e => defs.registry.isWidget e.input).map (·.widget)).map (·.exposed) =
        (shown.filter fun e => defs.registry.isWidget e.input).map (·.exposedName) := List.map_map
    rw [widgets, recorded, Operation.sentNames_eq, inputs, List.filter_map, named,
      map_filter_eq_iff distinct]
    exact forall₂_congr fun e inside => eq_comm.trans (role e inside)
  · intro e inside widget
    have listed : e.exposed ∈ group.operation.inputs := inputs ▸ List.mem_map_of_mem inside
    have unique : (group.operation.inputs.map (·.name)).Nodup := by rw [inputs, named]; exact distinct
    have free : e.exposed.name ≠ controlName := by
      rw [e.name_exposed]
      exact ExposedInput.exposedName_ne_controlName _ _
    rw [← e.name_exposed, ← role e inside]
    constructor
    · intro keeps
      exact Operation.indexOf?_layout unique listed free (keeps ▸ widget)
    · intro differs
      exact Operation.indexOf?_layout_of_link unique listed free fun other => differs (widget.trans other.symm)

/-- A registry whose table makes masks of one name widgets. -/
def paintRegistry : Registry :=
  let paint := ((Operation.named "Paint").addRequired "shape" (.text "MASK")).addRequired "strength" (.text "INT")
  let sampler := ((Operation.named "Sampler").addRequired "seed" (.text "INT")).addRequired "mask" (.text "MASK")
  ((Registry.standard.addWidgetType "MASK:shape").insert paint).insert (sampler.addRequired "steps" (.text "INT"))

def samplerConfig : GroupConfig where
  nodes := [Node.plain (.number 1) "Sampler", Node.plain (.number 2) "Sampler"]
  links := []
  extra := []

theorem Definitions.describe_widgets_sampler :
    let defs := ofRegistry paintRegistry
    let shown := samplerConfig.withoutFlow.shown paintRegistry defs.operation?
    let group := defs.describe "sampler" samplerConfig
    samplerConfig.withoutFlow.DeclaresOnce paintRegistry defs.operation? ∧
      group.operation.sentNames paintRegistry = group.exposure.widgets.map (·.exposed) ∧
      group.exposure.widgets.map (·.exposed) = ["0:seed", "0:steps", "1:seed", "1:steps"] ∧
      (group.operation.layout paintRegistry).map (·.name) =
        ["0:seed", controlName, "0:steps", "1:seed", controlName, "1:steps"] ∧
      ∀ e ∈ shown, paintRegistry.isWidget e.input →
        ∃ index, WidgetSpec.indexOf? (group.operation.layout paintRegistry) e.exposedName = some index ∧
          (group.operation.layout paintRegistry)[index]? = some ⟨e.exposedName, true, some e.exposed⟩ := by
  intro defs shown group
  have once : samplerConfig.withoutFlow.DeclaresOnce paintRegistry defs.operation? :=
    GroupConfig.declaresOnce_of_members (by decide +kernel)
  have keeps : ∀ e ∈ shown, paintRegistry.KeepsRole e := by decide +kernel
  obtain ⟨_, _, names, places⟩ := defs.describe_widgets "sampler" samplerConfig once
  exact ⟨once, names.2 keeps, by decide +kernel, by decide +kernel,
    fun e inside widget => (places e inside widget).1 (keeps e inside)⟩

def paintConfig : GroupConfig where
  nodes := [{ Node.plain (.number 1) "Paint" with widgets := some [.text "square", .ofNat 1] }]
  links := []
  extra := []

/-- The table names masks by the name that a member gives them. The group records one as a widget of its own, but
stores no value for it, and the value of an instance that comes first is handed to the widget behind it. -/
theorem Definitions.describe_widgets_paint :
    let defs := ofRegistry paintRegistry
    let group := defs.describe "paint" paintConfig
    let place : Node := { Node.plain (.number 3) "workflow/paint" with widgets := some [.text "round", .ofNat 5] }
    paintConfig.withoutFlow.DeclaresOnce paintRegistry defs.operation? ∧
      group.exposure.widgets.map (·.exposed) = ["0:shape", "0:strength"] ∧
      group.operation.sentNames paintRegistry = ["0:strength"] ∧
      group.operation.sentNames paintRegistry ≠ group.exposure.widgets.map (·.exposed) ∧
      (group.placedMembers defs place).map (·.widgetValues) = [[.text "square", .text "round"]] := by
  have once : paintConfig.withoutFlow.DeclaresOnce paintRegistry (ofRegistry paintRegistry).operation? :=
    GroupConfig.declaresOnce_of_members (by decide +kernel)
  exact ⟨once, by decide +kernel, by decide +kernel, by decide +kernel, by decide +kernel⟩

end Patchbay
