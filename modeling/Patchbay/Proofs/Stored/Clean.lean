import Patchbay.Proofs.Stored.Records
import Patchbay.Proofs.Stored.Text

/-!
Documents that are read back. Members that no field names may stand everywhere in a document; it is clean if none of
them has the name of a field that the same object has. Main statements: `Document.clean_of_ofText` and
`Document.ofText_render`, that a document is read back from its text if and only if it is clean.
-/
set_option autoImplicit false

namespace Patchbay

/-! ### Clean values -/

def WidgetMark.Clean (levels : Nat) (mark : WidgetMark) : Prop :=
  mark.extra.Spare (levels - 1) (shape.fields.map (·.name))

structure InputSlot.Clean (levels : Nat) (slot : InputSlot) : Prop where
  widget : ∀ mark ∈ slot.widget, mark.Clean (levels - 1)
  extra : slot.extra.Spare (levels - 1) (shape.fields.map (·.name))

def OutputSlot.Clean (levels : Nat) (slot : OutputSlot) : Prop :=
  slot.extra.Spare (levels - 1) (shape.fields.map (·.name))

def FlowInput.Clean (levels : Nat) (slot : FlowInput) : Prop :=
  slot.extra.Spare (levels - 1) (shape.fields.map (·.name))

def FlowOutput.Clean (levels : Nat) (slot : FlowOutput) : Prop :=
  slot.extra.Spare (levels - 1) (shape.fields.map (·.name))

structure Node.Clean (levels : Nat) (node : Node) : Prop where
  inputs : ∀ slot ∈ node.inputs, slot.Clean (levels - 2)
  outputs : ∀ slot ∈ node.outputs, slot.Clean (levels - 2)
  widgets : ∀ values ∈ node.widgets, ∀ value ∈ values, value.Sound (levels - 2)
  flowInputs : ∀ slots ∈ node.flowInputs, ∀ slot ∈ slots, slot.Clean (levels - 2)
  flowOutputs : ∀ slots ∈ node.flowOutputs, ∀ slot ∈ slots, slot.Clean (levels - 2)
  extra : node.extra.Spare (levels - 1) (shape.fields.map (·.name))

structure GroupConfig.Clean (levels : Nat) (config : GroupConfig) : Prop where
  nodes : ∀ node ∈ config.nodes, node.Clean (levels - 2)
  links : ∀ link ∈ config.links, ∀ value ∈ link.tail, value.Sound (levels - 3)
  extra : config.extra.Spare (levels - 1) (shape.fields.map (·.name))

structure DocumentExtra.Clean (levels : Nat) (extra : DocumentExtra) : Prop where
  groups : ∀ entry ∈ extra.groups.entries, entry.2.Clean (levels - 2)
  rest : extra.rest.Spare (levels - 1) (shape.fields.map (·.name))

structure Document.Clean (levels : Nat) (doc : Document) : Prop where
  nodes : ∀ node ∈ doc.nodes, node.Clean (levels - 2)
  flowLinks : ∀ links ∈ doc.flowLinks, ∀ link ∈ links, link.Clean (levels - 2)
  extra : doc.extra.Clean (levels - 1)
  rest : doc.rest.Spare (levels - 1) (shape.fields.map (·.name))

/-! ### Clean values are read back -/

theorem Codec.stores_link? {levels : Nat} : Codec.linkId.nullable.Stores levels fun link => ∀ id ∈ link, True :=
  (stores_word "u64").nullable fun _ => nofun

theorem Codec.stores_links? {levels : Nat} (deep : 2 ≤ levels) :
    (Codec.list Codec.linkId).nullable.Stores levels fun links => ∀ ids ∈ links, ∀ id ∈ ids, True :=
  ((stores_word "u64").list deep).nullable fun _ => nofun

theorem Codec.stores_flowLinks? {levels : Nat} (deep : 2 ≤ levels) :
    (Codec.list Codec.linkId.nullable).nullable.Stores levels fun links =>
      ∀ ids ∈ links, ∀ link ∈ ids, ∀ id ∈ link, True :=
  (stores_link?.list deep).nullable fun _ => nofun

theorem WidgetMark.stores {levels : Nat} (deep : 2 ≤ levels) : shape.codec.Stores levels (Clean levels) := by
  have stores : shape.Stores (levels - 1) (Clean levels) (·.extra) ({ · with extra := · }) _ := {
    surplus := rfl
    fields :=
      .cons (Field.stores_ofCodec Codec.stores_string true "name" (fun _ => trivial) fun clean _ => clean) <|
      .nil
    distinct := by decide
    blank := Fields.spare_nil ..
    takes := fun _ spare => spare
    spare := fun clean => clean
    rebuild := fun _ => ⟨rfl, rfl⟩
    rest := fun _ _ _ => ⟨rfl, rfl, rfl⟩ }
  exact stores.codec (by omega)

theorem OutputSlot.stores {levels : Nat} (deep : 3 ≤ levels) : shape.codec.Stores levels (Clean levels) := by
  have stores : shape.Stores (levels - 1) (Clean levels) (·.extra) ({ · with extra := · }) _ := {
    surplus := rfl
    fields :=
      .cons (Field.stores_ofCodec Codec.stores_string true "name" (fun _ => trivial) fun clean _ => clean) <|
      .cons (Field.stores_ofCodec Codec.stores_string true "type" (fun _ => trivial) fun clean _ => clean) <|
      .cons (Field.stores_ofCodec (Codec.stores_links? (by omega)) false "links"
        (fun _ _ _ _ _ => trivial) fun clean _ => clean) <|
      .cons (Field.stores_optional (Codec.stores_word "usize") (fun _ => nofun)
        "slot_index" (fun _ _ _ => trivial) fun clean _ => clean) <|
      .nil
    distinct := by decide
    blank := Fields.spare_nil ..
    takes := fun _ spare => spare
    spare := fun clean => clean
    rebuild := fun ⟨_, _, _, index, _⟩ => by cases index <;> exact ⟨rfl, rfl⟩
    rest := fun _ _ _ => ⟨rfl, rfl, rfl⟩ }
  exact stores.codec (by omega)

theorem InputSlot.stores {levels : Nat} (deep : 3 ≤ levels) : shape.codec.Stores levels (Clean levels) := by
  have stores : shape.Stores (levels - 1) (Clean levels) (·.extra) ({ · with extra := · }) _ := {
    surplus := rfl
    fields :=
      .cons (Field.stores_ofCodec Codec.stores_string true "name" (fun _ => trivial)
        (fun clean _ => { clean with })) <|
      .cons (Field.stores_ofCodec Codec.stores_string true "type" (fun _ => trivial)
        (fun clean _ => { clean with })) <|
      .cons (Field.stores_ofCodec Codec.stores_link? false "link" (fun _ _ _ => trivial)
        (fun clean _ => { clean with })) <|
      .cons (Field.stores_optional (WidgetMark.stores (by omega)) (fun _ => nofun)
        "widget" (fun clean => clean.widget) (fun clean widget => { clean with widget := widget })) <|
      .nil
    distinct := by decide
    blank := ⟨nofun, Fields.spare_nil ..⟩
    takes := fun clean spare => { clean with extra := spare }
    spare := fun clean => clean.extra
    rebuild := fun ⟨_, _, _, widget, _⟩ => by cases widget <;> exact ⟨rfl, rfl⟩
    rest := fun _ _ _ => ⟨rfl, rfl, rfl⟩ }
  exact stores.codec (by omega)

theorem FlowInput.stores {levels : Nat} (deep : 4 ≤ levels) : shape.codec.Stores levels (Clean levels) := by
  have stores : shape.Stores (levels - 1) (Clean levels) (·.extra) ({ · with extra := · }) _ := {
    surplus := rfl
    fields :=
      .cons (Field.stores_ofCodec Codec.stores_string true "name" (fun _ => trivial) (fun clean _ => clean)) <|
      .cons (Field.stores_ofCodec Codec.stores_string false "type" (fun _ => trivial) (fun clean _ => clean)) <|
      .cons (Field.stores_ofCodec (Codec.stores_flowLinks? (by omega)) false "links" (fun _ _ _ _ _ _ _ => trivial)
        (fun clean _ => clean)) <|
      .nil
    distinct := by decide
    blank := Fields.spare_nil ..
    takes := fun _ spare => spare
    spare := fun clean => clean
    rebuild := fun _ => ⟨rfl, rfl⟩
    rest := fun _ _ _ => ⟨rfl, rfl, rfl⟩ }
  exact stores.codec (by omega)

theorem FlowOutput.stores {levels : Nat} (deep : 3 ≤ levels) : shape.codec.Stores levels (Clean levels) := by
  have stores : shape.Stores (levels - 1) (Clean levels) (·.extra) ({ · with extra := · }) _ := {
    surplus := rfl
    fields :=
      .cons (Field.stores_ofCodec Codec.stores_string true "name" (fun _ => trivial) (fun clean _ => clean)) <|
      .cons (Field.stores_ofCodec Codec.stores_string false "type" (fun _ => trivial) (fun clean _ => clean)) <|
      .cons (Field.stores_ofCodec Codec.stores_link? false "link" (fun _ _ _ => trivial) (fun clean _ => clean)) <|
      .cons (Field.stores_optional (Codec.stores_word "usize") (fun _ => nofun) "slot_index" (fun _ _ _ => trivial)
        (fun clean _ => clean)) <|
      .nil
    distinct := by decide
    blank := Fields.spare_nil ..
    takes := fun _ spare => spare
    spare := fun clean => clean
    rebuild := fun ⟨_, _, _, index, _⟩ => by cases index <;> exact ⟨rfl, rfl⟩
    rest := fun _ _ _ => ⟨rfl, rfl, rfl⟩ }
  exact stores.codec (by omega)

theorem Node.stores {levels : Nat} (deep : 7 ≤ levels) : shape.codec.Stores levels (Clean levels) := by
  have stores : shape.Stores (levels - 1) (Clean levels) (·.extra) ({ · with extra := · }) _ := {
    surplus := rfl
    fields :=
      .cons (Field.stores_ofCodec Codec.stores_nodeId true "id" (fun _ => trivial) (fun clean _ => { clean with })) <|
      .cons (Field.stores_ofCodec Codec.stores_string true "type" (fun _ => trivial)
        (fun clean _ => { clean with })) <|
      .cons (Field.stores_ofCodec Codec.stores_mode false "mode" (fun _ => trivial)
        (fun clean _ => { clean with })) <|
      .cons (Field.stores_ofCodec ((InputSlot.stores (by omega)).list (by omega)) false "inputs"
        (fun clean => clean.inputs) (fun clean part => { clean with inputs := part })) <|
      .cons (Field.stores_ofCodec ((OutputSlot.stores (by omega)).list (by omega)) false "outputs"
        (fun clean => clean.outputs) (fun clean part => { clean with outputs := part })) <|
      .cons (Field.stores_optional (Codec.stores_json.list (by omega)) (fun _ => nofun)
        "widgets_values" (fun clean => clean.widgets) (fun clean part => { clean with widgets := part })) <|
      .cons (Field.stores_optional ((FlowInput.stores (by omega)).list (by omega)) (fun _ => nofun)
        "flow_inputs" (fun clean => clean.flowInputs) (fun clean part => { clean with flowInputs := part })) <|
      .cons (Field.stores_optional ((FlowOutput.stores (by omega)).list (by omega)) (fun _ => nofun)
        "flow_outputs" (fun clean => clean.flowOutputs) (fun clean part => { clean with flowOutputs := part })) <|
      .nil
    distinct := by decide
    blank := ⟨nofun, nofun, nofun, nofun, nofun, Fields.spare_nil ..⟩
    takes := fun clean part => { clean with extra := part }
    spare := fun clean => clean.extra
    rebuild := fun ⟨_, _, _, _, _, widgets, flowInputs, flowOutputs, _⟩ => by
      cases widgets <;> cases flowInputs <;> cases flowOutputs <;> exact ⟨rfl, rfl⟩
    rest := fun _ _ _ => ⟨rfl, rfl, rfl⟩ }
  exact stores.codec (by omega)

theorem GroupConfig.stores {levels : Nat} (deep : 9 ≤ levels) : shape.codec.Stores levels (Clean levels) := by
  have stores : shape.Stores (levels - 1) (Clean levels) (·.extra) ({ · with extra := · }) _ := {
    surplus := rfl
    fields :=
      .cons (Field.stores_ofCodec ((Node.stores (by omega)).list (by omega)) true "nodes" (fun clean => clean.nodes)
        (fun clean part => { clean with nodes := part })) <|
      .cons (Field.stores_ofCodec ((GroupLink.stores_codec (by omega)).list (by omega)) false "links"
        (fun clean => clean.links) (fun clean part => { clean with links := part })) <|
      .nil
    distinct := by decide
    blank := ⟨nofun, nofun, Fields.spare_nil ..⟩
    takes := fun clean part => { clean with extra := part }
    spare := fun clean => clean.extra
    rebuild := fun _ => ⟨rfl, rfl⟩
    rest := fun _ _ _ => ⟨rfl, rfl, rfl⟩ }
  exact stores.codec (by omega)

theorem DocumentExtra.stores {levels : Nat} (deep : 11 ≤ levels) : shape.codec.Stores levels (Clean levels) := by
  have stores : shape.Stores (levels - 1) (Clean levels) (·.rest) ({ · with rest := · }) _ := {
    surplus := rfl
    fields :=
      .cons (Field.stores_unlessEmpty ((GroupConfig.stores (by omega)).table (by omega)) "groupNodes"
        (fun clean => clean.groups) (fun clean part => { clean with groups := part })) <|
      .nil
    distinct := by decide
    blank := ⟨nofun, Fields.spare_nil ..⟩
    takes := fun clean part => { clean with rest := part }
    spare := fun clean => clean.rest
    rebuild := fun ⟨⟨entries, _⟩, _⟩ => by cases entries <;> exact ⟨rfl, rfl⟩
    rest := fun _ _ _ => ⟨rfl, rfl, rfl⟩ }
  exact stores.codec (by omega)

theorem Document.stores {levels : Nat} (deep : 12 ≤ levels) : shape.codec.Stores levels (Clean levels) := by
  have stores : shape.Stores (levels - 1) (Clean levels) (·.rest) ({ · with rest := · }) _ := {
    surplus := rfl
    fields :=
      .cons (Field.stores_optional Codec.stores_int64 (fun _ => nofun) "last_node_id" (fun _ _ _ => trivial)
        (fun clean _ => { clean with })) <|
      .cons (Field.stores_optional (Codec.stores_word "u64") (fun _ => nofun) "last_link_id" (fun _ _ _ => trivial)
        (fun clean _ => { clean with })) <|
      .cons (Field.stores_ofCodec ((Node.stores (by omega)).list (by omega)) true "nodes" (fun clean => clean.nodes)
        (fun clean part => { clean with nodes := part })) <|
      .cons (Field.stores_ofCodec ((Codec.stores_link (by omega)).list (by omega)) false "links"
        (fun _ _ _ => trivial) (fun clean _ => { clean with })) <|
      .cons (Field.stores_optional ((FlowLink.stores_codec (by omega)).list (by omega)) (fun _ => nofun)
        "flow_links" (fun clean => clean.flowLinks) (fun clean part => { clean with flowLinks := part })) <|
      .cons (Field.stores_ofCodec (DocumentExtra.stores (by omega)) false "extra" (fun clean => clean.extra)
        (fun clean part => { clean with extra := part })) <|
      .cons (Field.stores_ofCodec Codec.stores_bool false "support_flow_control" (fun _ => trivial)
        (fun clean _ => { clean with })) <|
      .nil
    distinct := by decide
    blank := ⟨nofun, nofun, ⟨nofun, Fields.spare_nil ..⟩, Fields.spare_nil ..⟩
    takes := fun clean part => { clean with rest := part }
    spare := fun clean => clean.rest
    rebuild := fun ⟨lastNodeId, lastLinkId, _, _, flowLinks, _, _, _⟩ => by
      cases lastNodeId <;> cases lastLinkId <;> cases flowLinks <;> exact ⟨rfl, rfl⟩
    rest := fun _ _ _ => ⟨rfl, rfl, rfl⟩ }
  exact stores.codec (by omega)

namespace Document

/-- What is read from a text is clean. -/
theorem clean_of_ofText {text : String} {doc : Document} (read : codec.ofText text = .ok doc) :
    doc.Clean Source.nestingLimit := by
  unfold Codec.ofText at read
  obtain ⟨found, inner, same⟩ := (bind_eq_ok_iff ..).1 read
  have whole : codec.Stores Source.nestingLimit _ := stores (by decide)
  have clean := whole.yields (Source.canonical_ofText text) inner
  split at same
  · cases same; exact clean
  · cases same

/-- The floats of a document are read from the text that is written for them. -/
def FloatsReadBack (doc : Document) : Prop :=
  ∀ x : Float, .real x ∈ doc.toJson.numbers → (Number.real x).ReadsBack

/-- A clean document is read from its own text. -/
theorem ofText_render {doc : Document} (clean : doc.Clean Source.nestingLimit) (floats : doc.FloatsReadBack) :
    codec.ofText doc.render = .ok doc := by
  have whole : codec.Stores Source.nestingLimit _ := stores (by decide)
  have legible : ∀ number ∈ doc.toJson.numbers, number.ReadsBack := fun number member =>
    ((whole.sound clean).canonical_of_mem number member).readsBack fun x same => same ▸ floats x (same ▸ member)
  obtain ⟨source, read, shown⟩ := Source.ofText_pretty legible
  unfold Codec.ofText render
  rw [read]
  exact (bind_eq_ok_iff ..).2 ⟨doc, whole.returns clean shown, rfl⟩

end Document
end Patchbay
