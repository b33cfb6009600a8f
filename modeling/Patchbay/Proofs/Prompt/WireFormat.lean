import Patchbay.Proofs.Graph.Loading
import Patchbay.Proofs.Group.Settling
import Patchbay.Proofs.Prompt.Offers
import Patchbay.Proofs.Stored.Clean
import Patchbay.Proofs.Stored.Preservation

/-!
Prompts as text. A link is written as a list of a text and a number, a literal as it is, and a reader goes by the form of
the value alone: a literal of that form is read as a link. Nothing else is lost, and the table beside the inputs still
says which of them were links.
-/
set_option autoImplicit false

namespace Patchbay

theorem Table.map_eq_self_iff {α : Type} {t : Table α} {f : String → α → α} :
    t.map f = t ↔ ∀ key value, t.get? key = some value → f key value = value := by
  constructor
  · intro same key value found
    have mapped := Table.get?_map f t key
    rw [same, found] at mapped
    exact (Option.some.inj mapped).symm
  · intro each
    apply Table.ext_get?
    intro key
    rw [Table.get?_map]
    cases found : t.get? key with
    | none => rfl
    | some value => rw [Option.map_some, each key value found]

/-! ### One input -/

/-- A value of the form in which links are written. -/
def Json.IsReference (value : Json) : Prop :=
  ∃ producer slot, value = .array [.text producer, .number (.natural slot)]

namespace InputValue

theorem toJson_ofJson (value : Json) : (ofJson value).toJson = value := by
  unfold ofJson
  split <;> rfl

theorem ofJson_of_not_isReference {value : Json} (other : ¬ value.IsReference) : ofJson value = .literal value := by
  unfold ofJson
  split
  · next producer slot => exact absurd ⟨producer, slot, rfl⟩ other
  · rfl

/-- The input that is read where this one was written. -/
def reread (input : InputValue) : InputValue := ofJson input.toJson

theorem toJson_reread (input : InputValue) : input.reread.toJson = input.toJson := toJson_ofJson _

theorem reread_link (producer : String) (slot : Word) : (link producer slot).reread = .link producer slot := rfl

theorem reread_reread (input : InputValue) : input.reread.reread = input.reread := by
  rw [reread, toJson_reread, reread]

theorem reread_eq_self_iff (input : InputValue) :
    input.reread = input ↔ ∀ value, input = .literal value → ¬ value.IsReference := by
  cases input with
  | link producer slot => exact iff_of_true rfl nofun
  | literal value =>
    constructor
    · rintro same _ ⟨⟩ ⟨producer, slot, rfl⟩
      cases same
    · intro other
      exact ofJson_of_not_isReference (other value rfl)

def Clean (levels : Nat) (input : InputValue) : Prop := input.toJson.Sound levels ∧ input.reread = input

theorem stores {levels : Nat} : codec.Stores levels (Clean levels) where
  yields {source input} canonical read := by
    obtain ⟨value, valueRead, rfl⟩ := (map_eq_ok_iff ..).1 read
    refine ⟨?_, ?_⟩
    · rw [toJson_ofJson]
      exact Codec.stores_json.yields canonical valueRead
    · rw [reread, toJson_ofJson]
  returns {source input} clean shown :=
    (map_eq_ok_iff ..).2 ⟨input.toJson, Codec.stores_json.returns clean.1 shown, clean.2⟩
  sound {input} clean := clean.1

end InputValue

/-! ### Instructions and prompts -/

namespace Instruction

def reread (i : Instruction) : Instruction := { i with inputs := i.inputs.map fun _ input => input.reread }

/-- The instruction that a reader gets who goes by the table beside the inputs. -/
def byFlags (i : Instruction) : Instruction :=
  { i with inputs := i.inputs.map fun name input =>
      if i.isInputLinked.get? name = some true then input else .literal input.toJson }

def Clean (levels : Nat) (i : Instruction) : Prop := ∀ entry ∈ i.inputs.entries, entry.2.Clean (levels - 2)

theorem stores {levels : Nat} (deep : 3 ≤ levels) : shape.codec.Stores levels (Clean levels) := by
  have copies : shape.Copies (levels - 1) (Clean levels) _ := {
    surplus := rfl
    fields :=
      .cons (Field.stores_ofCodec Codec.stores_string true "class_type" (fun _ => trivial) (fun clean _ => clean)) <|
      .cons (Field.stores_ofCodec (InputValue.stores.table (by omega)) true "inputs" (fun clean => clean)
        (fun _ part => part)) <|
      .cons (Field.stores_ofCodec (Codec.stores_bool.table (by omega)) true "is_input_linked"
        (fun _ _ _ => trivial) (fun clean _ => clean)) <|
      .nil
    distinct := by decide
    blank := nofun
    rebuild := fun _ => rfl }
  exact copies.codec (by omega)

theorem write_reread (i : Instruction) : shape.codec.write i.reread = shape.codec.write i := by
  have inputs : (Codec.table InputValue.codec).write i.reread.inputs = (Codec.table InputValue.codec).write i.inputs := by
    refine congrArg Json.object ((List.map_map ..).trans (List.map_congr_left fun entry _ => ?_))
    exact congrArg (Prod.mk entry.1) entry.2.toJson_reread
  change Json.object [_, ("inputs", (Codec.table InputValue.codec).write i.reread.inputs), _] = _
  rw [inputs]
  rfl

theorem byFlags_reread {i : Instruction}
    (flags : ∀ name, i.isInputLinked.get? name = (i.inputs.get? name).map (·.isLink)) :
    i.reread.byFlags = i := by
  have inputs : i.reread.byFlags.inputs = i.inputs := by
    apply Table.ext_get?
    intro name
    have told : i.reread.isInputLinked.get? name = (i.inputs.get? name).map (·.isLink) := flags name
    rw [byFlags, Table.get?_map, told, reread, Table.get?_map]
    rcases i.inputs.get? name with _ | ⟨producer, slot⟩ | value
    · rfl
    · rfl
    · exact congrArg (fun own => some (InputValue.literal own)) (InputValue.literal value).toJson_reread
  exact congrArg (fun inputs => { i with inputs := inputs }) inputs

end Instruction

namespace Prompt

def reread (prompt : Prompt) : Prompt := prompt.map fun _ i => i.reread

theorem stores {levels : Nat} (deep : 4 ≤ levels) :
    codec.Stores levels fun prompt => ∀ entry ∈ prompt.entries, entry.2.Clean (levels - 1) :=
  (Instruction.stores (by omega)).table (by omega)

theorem write_reread (prompt : Prompt) : codec.write prompt.reread = codec.write prompt := by
  refine congrArg Json.object ((List.map_map ..).trans (List.map_congr_left fun entry _ => ?_))
  exact congrArg (Prod.mk entry.1) entry.2.write_reread

/-- All inputs are written as values that a reader takes, three levels down. -/
def Sound (prompt : Prompt) : Prop :=
  ∀ key i, prompt.get? key = some i → ∀ name input, i.inputs.get? name = some input →
    input.toJson.Sound (Source.nestingLimit - 3)

def Flagged (prompt : Prompt) : Prop :=
  ∀ key i, prompt.get? key = some i → ∀ name, i.isInputLinked.get? name = (i.inputs.get? name).map (·.isLink)

/-- The floats of a prompt are read from the text that is written for them. -/
def FloatsReadBack (prompt : Prompt) : Prop :=
  ∀ x : Float, .real x ∈ (codec.write prompt).numbers → (Number.real x).ReadsBack

variable {prompt : Prompt}

theorem clean_reread (sound : prompt.Sound) :
    ∀ entry ∈ prompt.reread.entries, entry.2.Clean (Source.nestingLimit - 1) := by
  intro entry member input inside
  obtain ⟨⟨key, i⟩, own, rfl⟩ := List.mem_map.1 member
  obtain ⟨⟨name, old⟩, held, rfl⟩ := List.mem_map.1 inside
  refine ⟨?_, old.reread_reread⟩
  rw [InputValue.toJson_reread]
  exact sound key i (Table.get?_of_mem own) name old (Table.get?_of_mem held)

-- However the text is laid out: the tree only has to denote what was written.
theorem read_denoted (sound : prompt.Sound) {source : Source} (shown : source.Denotes (codec.write prompt)) :
    codec.read Source.nestingLimit source = .ok prompt.reread := by
  rw [← prompt.write_reread] at shown
  exact (stores (by decide)).returns (clean_reread sound) shown

theorem ofText_written (sound : prompt.Sound) (floats : prompt.FloatsReadBack) :
    codec.ofText (codec.write prompt).pretty = .ok prompt.reread := by
  have whole : (codec.write prompt).Sound Source.nestingLimit := by
    rw [← prompt.write_reread]
    exact (stores (by decide)).sound (clean_reread sound)
  have legible : ∀ number ∈ (codec.write prompt).numbers, number.ReadsBack := fun number member =>
    (whole.canonical_of_mem number member).readsBack fun x same => same ▸ floats x (same ▸ member)
  obtain ⟨source, read, shown⟩ := Source.ofText_pretty legible
  unfold Codec.ofText
  rw [read]
  exact (bind_eq_ok_iff ..).2 ⟨prompt.reread, read_denoted sound shown, rfl⟩

theorem reread_eq_self_iff : prompt.reread = prompt ↔ ∀ key i, prompt.get? key = some i →
    ∀ name value, i.inputs.get? name = some (.literal value) → ¬ value.IsReference := by
  rw [reread, Table.map_eq_self_iff]
  refine forall_congr' fun key => forall_congr' fun i => imp_congr_right fun _ => ?_
  have inputs : i.reread = i ↔ i.reread.inputs = i.inputs :=
    ⟨congrArg Instruction.inputs, fun same => congrArg (fun inputs => { i with inputs := inputs }) same⟩
  rw [inputs, Instruction.reread, Table.map_eq_self_iff]
  refine forall_congr' fun name => ?_
  constructor
  · intro each value held
    exact (InputValue.reread_eq_self_iff _).1 (each _ held) value rfl
  · intro each input held
    refine (InputValue.reread_eq_self_iff input).2 fun value literal => each value ?_
    rw [held, literal]

theorem reread_reread (prompt : Prompt) : prompt.reread.reread = prompt.reread := by
  refine reread_eq_self_iff.2 fun key i found name value held => ?_
  rw [reread, Table.get?_map, Option.map_eq_some_iff] at found
  obtain ⟨old, _, rfl⟩ := found
  rw [Instruction.reread, Table.get?_map, Option.map_eq_some_iff] at held
  obtain ⟨input, _, read⟩ := held
  exact (InputValue.reread_eq_self_iff _).1 input.reread_reread value read

/-- What becomes of a prompt that is written and read. Links come back as they were; literals do unless they have the
form of a link, and then they come back as that link; with the table beside the inputs the prompt can be restored. -/
structure Rereads (prompt : Prompt) : Prop where
  text : codec.ofText (codec.write prompt).pretty = .ok prompt.reread
  denoted : ∀ source : Source, source.Denotes (codec.write prompt) →
    codec.read Source.nestingLimit source = .ok prompt.reread
  same_iff : prompt.reread = prompt ↔ ∀ key i, prompt.get? key = some i →
    ∀ name value, i.inputs.get? name = some (.literal value) → ¬ value.IsReference
  beside : ∀ key i, prompt.get? key = some i → ∃ other, prompt.reread.get? key = some other ∧
    other.classType = i.classType ∧ other.isInputLinked = i.isInputLinked ∧
      (∀ name, i.inputs.get? name = none → other.inputs.get? name = none) ∧
      (∀ name producer slot, i.inputs.get? name = some (.link producer slot) →
        other.inputs.get? name = some (.link producer slot) ∧ other.isInputLinked.get? name = some true) ∧
      ∀ name value, i.inputs.get? name = some (.literal value) → other.isInputLinked.get? name = some false ∧
        (¬ value.IsReference → other.inputs.get? name = some (.literal value)) ∧
          ∀ producer slot, value = .array [.text producer, .number (.natural slot)] →
            other.inputs.get? name = some (.link producer slot)
  restored : prompt.reread.map (fun _ i => i.byFlags) = prompt
  again : prompt.reread.reread = prompt.reread

theorem rereads (sound : prompt.Sound) (flagged : prompt.Flagged) (floats : prompt.FloatsReadBack) :
    prompt.Rereads where
  text := ofText_written sound floats
  denoted _ shown := read_denoted sound shown
  same_iff := reread_eq_self_iff
  beside := by
    intro key i found
    have flags := flagged key i found
    refine ⟨i.reread, ?_, rfl, rfl, ?_, ?_, ?_⟩
    · rw [reread, Table.get?_map, found]
      rfl
    · intro name absent
      rw [Instruction.reread, Table.get?_map, absent]
      rfl
    · intro name producer slot held
      refine ⟨?_, ?_⟩
      · rw [Instruction.reread, Table.get?_map, held]
        rfl
      · exact (flags name).trans (by rw [held]; rfl)
    · intro name value held
      have read : i.reread.inputs.get? name = some (.ofJson value) := by
        rw [Instruction.reread, Table.get?_map, held]
        rfl
      refine ⟨(flags name).trans (by rw [held]; rfl), ?_, ?_⟩
      · intro other
        rw [read, InputValue.ofJson_of_not_isReference other]
      · rintro producer slot rfl
        exact read
  restored := by
    apply Table.ext_get?
    intro key
    rw [Table.get?_map, reread, Table.get?_map, Option.map_map]
    cases found : prompt.get? key with
    | none => rfl
    | some i => exact congrArg some (Instruction.byFlags_reread (flagged key i found))
  again := reread_reread _

end Prompt

/-! ### Prompts of a graph -/

namespace Graph

variable {g : Graph} {defs : Definitions} {order : List NodeId} {key name : String} {i : Instruction}

theorem mem_widgetValues_of_sent {node : Node} {value : Json} (sent : value ∈ sentValues defs node name) :
    value = .null ∨ value ∈ node.widgetValues := by
  unfold sentValues at sent
  split at sent
  · obtain ⟨widget, bound, rfl⟩ := List.mem_map.1 sent
    obtain ⟨index, _, rfl⟩ := List.mem_mapIdx.1 (List.mem_filter.1 bound).1
    cases stored : node.widgetValues[index]? with
    | none => exact .inl rfl
    | some value => exact .inr (List.mem_of_getElem? stored)
  · cases sent

theorem literal_of_serialize (found : (g.serialize defs order).get? key = some i) {value : Json}
    (held : i.inputs.get? name = some (.literal value)) :
    value = .null ∨ ∃ node ∈ g.nodes, value ∈ node.widgetValues := by
  obtain ⟨id, node, drop, there, rfl⟩ := exists_node_of_serialize found
  have whole := exists_of_dropInputs held
  rw [inputs_instruction, inputValue?] at whole
  split at whole
  · cases whole
  · obtain ⟨_, last, same⟩ := Option.map_eq_some_iff.1 whole
    cases same
    have own := mem_widgetValues_of_sent (List.mem_of_getLast? last)
    exact own.imp_right fun inside => ⟨node, List.mem_of_find?_eq_some there, inside⟩

theorem sound_serialize
    (values : ∀ node ∈ g.nodes, ∀ value ∈ node.widgetValues, value.Sound (Source.nestingLimit - 3)) :
    (g.serialize defs order).Sound := by
  intro key i found name input held
  cases input with
  | link producer slot =>
    refine Json.Sound.array_of_deep (by decide) ?_
    simp only [List.forall_mem_cons]
    exact ⟨.text _ _, Json.sound_ofWord .., List.forall_mem_nil _⟩
  | literal value =>
    rcases literal_of_serialize found held with rfl | ⟨node, member, own⟩
    · exact .null _
    · exact values node member value own

theorem flagged_serialize : (g.serialize defs order).Flagged := by
  intro key i found name
  obtain ⟨_, node, drop, _, rfl⟩ := exists_node_of_serialize found
  have whole := g.inputs_instruction defs node name
  rw [Instruction.dropInputs, Table.get?_filter, Table.get?_filter, isInputLinked_instruction, whole]
  cases held : g.inputValue? defs node name with
  | none => rfl
  | some input => cases dropped : drop input <;> simp [Option.filter, whole, held, dropped]

/-- A prompt is read back as it was unless a value that is sent has the form of a link. -/
theorem serialize_rereads (g : Graph) (defs : Definitions) (order : List NodeId)
    (values : ∀ node ∈ g.nodes, ∀ value ∈ node.widgetValues, value.Sound (Source.nestingLimit - 3))
    (floats : (g.serialize defs order).FloatsReadBack) : (g.serialize defs order).Rereads :=
  Prompt.rereads (sound_serialize values) flagged_serialize floats

theorem sound_widgetValues {text : String} {doc : Document} (read : Document.codec.ofText text = .ok doc) :
    ∀ node ∈ (ofDocument doc).nodes, ∀ value ∈ node.widgetValues, value.Sound (Source.nestingLimit - 3) := by
  intro node member value own
  have clean := (Document.clean_of_ofText read).nodes node (mem_of_mem_ofDocument doc member)
  rw [Node.widgetValues] at own
  cases stored : node.widgets with
  | none =>
    rw [stored] at own
    cases own
  | some values =>
    rw [stored, Option.getD_some] at own
    exact (clean.widgets values stored value own).mono (by decide)

-- A document that was read holds no values that are nested too deeply for a prompt.
theorem rereads_of_ofText {text : String} {doc : Document} (read : Document.codec.ofText text = .ok doc)
    (floats : ((ofDocument doc).serialize defs order).FloatsReadBack) :
    ((ofDocument doc).serialize defs order).Rereads :=
  Prompt.rereads (sound_serialize (sound_widgetValues read)) flagged_serialize floats

-- Floats are the only numbers of which anything has to be assumed.
def holdsNoFloat (value : Json) : Bool := value.numbers.all fun
  | .real _ => false
  | _ => true

theorem floatsReadBack_of_holdsNoFloat {prompt : Prompt} (none : holdsNoFloat (Prompt.codec.write prompt)) :
    prompt.FloatsReadBack := by
  intro x member
  exact absurd (List.all_eq_true.1 none _ member) Bool.false_ne_true

theorem serialize_rereads_blur :
    (∀ node ∈ blurGraph.nodes, ∀ value ∈ node.widgetValues, value.Sound (Source.nestingLimit - 3)) ∧
      (blurGraph.serialize blurDefinitions blurGraph.nodeIds).FloatsReadBack ∧
      (blurGraph.serialize blurDefinitions blurGraph.nodeIds).keys = ["1", "3"] ∧
      (blurGraph.serialize blurDefinitions blurGraph.nodeIds).Rereads := by
  have values : ∀ node ∈ blurGraph.nodes, ∀ value ∈ node.widgetValues, value.Sound (Source.nestingLimit - 3) := by
    have sevens : ∀ node ∈ blurGraph.nodes, ∀ value ∈ node.widgetValues, value = .ofNat 7 := by decide +kernel
    intro node member value own
    rw [sevens node member value own]
    exact .number _ _ trivial
  have floats : (blurGraph.serialize blurDefinitions blurGraph.nodeIds).FloatsReadBack :=
    floatsReadBack_of_holdsNoFloat (by decide +kernel)
  exact ⟨values, floats, by decide +kernel, blurGraph.serialize_rereads blurDefinitions blurGraph.nodeIds values floats⟩

-- A widget whose value has the form of a link.
def disguised : Graph :=
  ⟨[{ Node.plain (.number 3) "Blur" with widgets := some [.array [.text "1", .ofNat 0]] }], [], 1⟩

/-- It is sent as a literal and read as a link, while the table beside the inputs says that it is none. -/
theorem serialize_disguised :
    ∃ sent received, disguised.serialize blurDefinitions disguised.nodeIds = sent ∧
      Prompt.codec.ofText (Prompt.codec.write sent).pretty = .ok received ∧ received ≠ sent ∧
      (sent.get? "3").bind (·.inputs.get? "amount") = some (.literal (.array [.text "1", .ofNat 0])) ∧
      (received.get? "3").bind (·.inputs.get? "amount") = some (.link "1" 0) ∧
      (received.get? "3").bind (·.isInputLinked.get? "amount") = some false := by
  have values : ∀ node ∈ disguised.nodes, ∀ value ∈ node.widgetValues, value.Sound (Source.nestingLimit - 3) := by
    have only : ∀ node ∈ disguised.nodes, ∀ value ∈ node.widgetValues, value = .array [.text "1", .ofNat 0] := by
      decide +kernel
    intro node member value own
    rw [only node member value own]
    refine .array _ _ ?_
    simp only [List.forall_mem_cons]
    exact ⟨.text _ _, .number _ _ trivial, List.forall_mem_nil _⟩
  have floats : (disguised.serialize blurDefinitions disguised.nodeIds).FloatsReadBack :=
    floatsReadBack_of_holdsNoFloat (by decide +kernel)
  exact ⟨_, _, rfl, Prompt.ofText_written (sound_serialize values) floats, by decide +kernel, by decide +kernel,
    by decide +kernel, by decide +kernel⟩

end Graph
end Patchbay
