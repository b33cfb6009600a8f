import Patchbay.Document
import Patchbay.Proofs.Stored.Objects

/-!
The forms of documents and of all that is stored in them, with the defaults of absent members. Main statement:
`Document.toJson_preserved`, that a document is written with everything that it was read from.
-/
set_option autoImplicit false

namespace Patchbay

/-! ### Forms -/

def WidgetMark.members : List MemberForm := [⟨"name", .needed, .any⟩]

def InputSlot.members : List MemberForm := [
  ⟨"name", .needed, .any⟩,
  ⟨"type", .needed, .any⟩,
  ⟨"link", .defaulted .null, .any⟩,
  ⟨"widget", .optional, .object WidgetMark.members⟩]

def OutputSlot.members : List MemberForm := [
  ⟨"name", .needed, .any⟩,
  ⟨"type", .needed, .any⟩,
  ⟨"links", .defaulted .null, .any⟩,
  ⟨"slot_index", .optional, .any⟩]

def FlowInput.members : List MemberForm := [
  ⟨"name", .needed, .any⟩,
  ⟨"type", .defaulted (.text "FLOW"), .any⟩,
  ⟨"links", .defaulted .null, .any⟩]

def FlowOutput.members : List MemberForm := [
  ⟨"name", .needed, .any⟩,
  ⟨"type", .defaulted (.text "FLOW"), .any⟩,
  ⟨"link", .defaulted .null, .any⟩,
  ⟨"slot_index", .optional, .any⟩]

def Node.members : List MemberForm := [
  ⟨"id", .needed, .any⟩,
  ⟨"type", .needed, .any⟩,
  ⟨"mode", .defaulted (.ofNat 0), .any⟩,
  ⟨"inputs", .defaulted (.array []), .list (.object InputSlot.members)⟩,
  ⟨"outputs", .defaulted (.array []), .list (.object OutputSlot.members)⟩,
  ⟨"widgets_values", .optional, .any⟩,
  ⟨"flow_inputs", .optional, .list (.object FlowInput.members)⟩,
  ⟨"flow_outputs", .optional, .list (.object FlowOutput.members)⟩]

def GroupConfig.members : List MemberForm := [
  ⟨"nodes", .needed, .list (.object Node.members)⟩,
  ⟨"links", .defaulted (.array []), .any⟩]

def DocumentExtra.members : List MemberForm := [
  ⟨"groupNodes", .unlessEmpty, .table (.object GroupConfig.members)⟩]

def Document.members : List MemberForm := [
  ⟨"last_node_id", .optional, .any⟩,
  ⟨"last_link_id", .optional, .any⟩,
  ⟨"nodes", .needed, .list (.object Node.members)⟩,
  ⟨"links", .defaulted (.array []), .any⟩,
  ⟨"flow_links", .optional, .any⟩,
  ⟨"extra", .defaulted (.object []), .object DocumentExtra.members⟩,
  ⟨"support_flow_control", .defaulted (.bool false), .any⟩]

/-- The form of a stored document. -/
def Document.form : Form := .object members

/-! ### What is read is kept -/

theorem Codec.keeps_string : Codec.string.Keeps .any := Exact.keeps exact_string

theorem Codec.keeps_linkId : Codec.linkId.Keeps .any := Exact.keeps (exact_natural _ "u64")

theorem Codec.keeps_slot : Codec.slot.Keeps .any := Exact.keeps (exact_natural _ "usize")

theorem Codec.keeps_link : Codec.linkId.nullable.Keeps .any := Exact.keeps (Exact.nullable (exact_natural _ "u64"))

theorem Codec.keeps_links : (Codec.list Codec.linkId).nullable.Keeps .any :=
  Exact.keeps (Exact.nullable (Exact.list (exact_natural _ "u64")))

theorem Codec.keeps_flowLinks : (Codec.list Codec.linkId.nullable).nullable.Keeps .any :=
  Exact.keeps (Exact.nullable (Exact.list (Exact.nullable (exact_natural _ "u64"))))

theorem Codec.keeps_values : (Codec.list Codec.json).Keeps .any := Exact.keeps (Exact.list exact_json)

theorem Json.wellFormed_null : Json.null.WellFormed := ⟨0, .null 0⟩

theorem Json.wellFormed_text (text : String) : (Json.text text).WellFormed := ⟨0, .text 0 text⟩

theorem Json.wellFormed_empty : (Json.array []).WellFormed := wellFormed_array (List.forall_mem_nil _)

theorem WidgetMark.shape_keeps : shape.Keeps (·.extra) ({ · with extra := · }) members where
  surplus := rfl
  fields :=
    .cons (Field.keeps_needed Codec.keeps_string fun _ _ => rfl) <|
    .nil
  distinct := by decide
  blank := rfl
  alone index field found _ _ _ _ read := by
    rcases index with _ | index <;> cases found
    obtain ⟨_, _, rfl⟩ := (map_eq_ok_iff ..).1 read
    exact ⟨rfl, rfl⟩
  rest _ _ := ⟨rfl, rfl⟩

theorem InputSlot.shape_keeps : shape.Keeps (·.extra) ({ · with extra := · }) members where
  surplus := rfl
  fields :=
    .cons (Field.keeps_needed Codec.keeps_string fun _ _ => rfl) <|
    .cons (Field.keeps_needed Codec.keeps_string fun _ _ => rfl) <|
    .cons (Field.keeps_defaulted Codec.keeps_link (fun _ _ => rfl) rfl Json.wellFormed_null) <|
    .cons (Field.keeps_optional WidgetMark.shape_keeps.codec_keeps (fun _ _ => rfl) rfl) <|
    .nil
  distinct := by decide
  blank := rfl
  alone index field found _ _ _ _ read := by
    rcases index with _ | _ | _ | _ | index <;> cases found
    all_goals
      obtain ⟨_, _, rfl⟩ := (map_eq_ok_iff ..).1 read
      exact ⟨rfl, rfl⟩
  rest _ _ := ⟨rfl, rfl⟩

theorem OutputSlot.shape_keeps : shape.Keeps (·.extra) ({ · with extra := · }) members where
  surplus := rfl
  fields :=
    .cons (Field.keeps_needed Codec.keeps_string fun _ _ => rfl) <|
    .cons (Field.keeps_needed Codec.keeps_string fun _ _ => rfl) <|
    .cons (Field.keeps_defaulted Codec.keeps_links (fun _ _ => rfl) rfl Json.wellFormed_null) <|
    .cons (Field.keeps_optional Codec.keeps_slot (fun _ _ => rfl) rfl) <|
    .nil
  distinct := by decide
  blank := rfl
  alone index field found _ _ _ _ read := by
    rcases index with _ | _ | _ | _ | index <;> cases found
    all_goals
      obtain ⟨_, _, rfl⟩ := (map_eq_ok_iff ..).1 read
      exact ⟨rfl, rfl⟩
  rest _ _ := ⟨rfl, rfl⟩

theorem FlowInput.shape_keeps : shape.Keeps (·.extra) ({ · with extra := · }) members where
  surplus := rfl
  fields :=
    .cons (Field.keeps_needed Codec.keeps_string fun _ _ => rfl) <|
    .cons (Field.keeps_defaulted Codec.keeps_string (fun _ _ => rfl) rfl (Json.wellFormed_text _)) <|
    .cons (Field.keeps_defaulted Codec.keeps_flowLinks (fun _ _ => rfl) rfl Json.wellFormed_null) <|
    .nil
  distinct := by decide
  blank := rfl
  alone index field found _ _ _ _ read := by
    rcases index with _ | _ | _ | index <;> cases found
    all_goals
      obtain ⟨_, _, rfl⟩ := (map_eq_ok_iff ..).1 read
      exact ⟨rfl, rfl⟩
  rest _ _ := ⟨rfl, rfl⟩

theorem FlowOutput.shape_keeps : shape.Keeps (·.extra) ({ · with extra := · }) members where
  surplus := rfl
  fields :=
    .cons (Field.keeps_needed Codec.keeps_string fun _ _ => rfl) <|
    .cons (Field.keeps_defaulted Codec.keeps_string (fun _ _ => rfl) rfl (Json.wellFormed_text _)) <|
    .cons (Field.keeps_defaulted Codec.keeps_link (fun _ _ => rfl) rfl Json.wellFormed_null) <|
    .cons (Field.keeps_optional Codec.keeps_slot (fun _ _ => rfl) rfl) <|
    .nil
  distinct := by decide
  blank := rfl
  alone index field found _ _ _ _ read := by
    rcases index with _ | _ | _ | _ | index <;> cases found
    all_goals
      obtain ⟨_, _, rfl⟩ := (map_eq_ok_iff ..).1 read
      exact ⟨rfl, rfl⟩
  rest _ _ := ⟨rfl, rfl⟩

theorem Node.shape_keeps : shape.Keeps (·.extra) ({ · with extra := · }) members where
  surplus := rfl
  fields :=
    .cons (Field.keeps_needed (Codec.Exact.keeps NodeId.codec_exact) fun _ _ => rfl) <|
    .cons (Field.keeps_needed Codec.keeps_string fun _ _ => rfl) <|
    .cons (Field.keeps_defaulted (Codec.Exact.keeps Mode.codec_exact) (fun _ _ => rfl) rfl
      ⟨0, Json.sound_ofWord 0 0⟩) <|
    .cons (Field.keeps_defaulted (Codec.Keeps.list InputSlot.shape_keeps.codec_keeps) (fun _ _ => rfl) rfl
      Json.wellFormed_empty) <|
    .cons (Field.keeps_defaulted (Codec.Keeps.list OutputSlot.shape_keeps.codec_keeps) (fun _ _ => rfl) rfl
      Json.wellFormed_empty) <|
    .cons (Field.keeps_optional Codec.keeps_values (fun _ _ => rfl) rfl) <|
    .cons (Field.keeps_optional (Codec.Keeps.list FlowInput.shape_keeps.codec_keeps) (fun _ _ => rfl) rfl) <|
    .cons (Field.keeps_optional (Codec.Keeps.list FlowOutput.shape_keeps.codec_keeps) (fun _ _ => rfl) rfl) <|
    .nil
  distinct := by decide
  blank := rfl
  alone index field found _ _ _ _ read := by
    rcases index with _ | _ | _ | _ | _ | _ | _ | _ | index <;> cases found
    all_goals
      obtain ⟨_, _, rfl⟩ := (map_eq_ok_iff ..).1 read
      exact ⟨rfl, rfl⟩
  rest _ _ := ⟨rfl, rfl⟩

theorem GroupConfig.shape_keeps : shape.Keeps (·.extra) ({ · with extra := · }) members where
  surplus := rfl
  fields :=
    .cons (Field.keeps_needed (Codec.Keeps.list Node.shape_keeps.codec_keeps) fun _ _ => rfl) <|
    .cons (Field.keeps_defaulted (Codec.Exact.keeps (Codec.Exact.list GroupLink.codec_exact)) (fun _ _ => rfl) rfl
      Json.wellFormed_empty) <|
    .nil
  distinct := by decide
  blank := rfl
  alone index field found _ _ _ _ read := by
    rcases index with _ | _ | index <;> cases found
    all_goals
      obtain ⟨_, _, rfl⟩ := (map_eq_ok_iff ..).1 read
      exact ⟨rfl, rfl⟩
  rest _ _ := ⟨rfl, rfl⟩

theorem DocumentExtra.shape_keeps : shape.Keeps (·.rest) ({ · with rest := · }) members where
  surplus := rfl
  fields :=
    .cons (Field.keeps_unlessEmpty GroupConfig.shape_keeps.codec_keeps (fun _ _ => rfl) rfl) <|
    .nil
  distinct := by decide
  blank := rfl
  alone index field found _ _ _ _ read := by
    rcases index with _ | index <;> cases found
    obtain ⟨_, _, rfl⟩ := (map_eq_ok_iff ..).1 read
    exact ⟨rfl, rfl⟩
  rest _ _ := ⟨rfl, rfl⟩

theorem Document.shape_keeps : shape.Keeps (·.rest) ({ · with rest := · }) members where
  surplus := rfl
  fields :=
    .cons (Field.keeps_optional (Codec.Exact.keeps Codec.exact_int64) (fun _ _ => rfl) rfl) <|
    .cons (Field.keeps_optional Codec.keeps_linkId (fun _ _ => rfl) rfl) <|
    .cons (Field.keeps_needed (Codec.Keeps.list Node.shape_keeps.codec_keeps) fun _ _ => rfl) <|
    .cons (Field.keeps_defaulted (Codec.Exact.keeps (Codec.Exact.list Link.codec_exact)) (fun _ _ => rfl) rfl
      Json.wellFormed_empty) <|
    .cons (Field.keeps_optional (Codec.Exact.keeps (Codec.Exact.list FlowLink.codec_exact)) (fun _ _ => rfl) rfl) <|
    .cons (Field.keeps_defaulted DocumentExtra.shape_keeps.codec_keeps (fun _ _ => rfl) rfl
      ⟨2, .object 0 [] .nil (List.forall_mem_nil _)⟩) <|
    .cons (Field.keeps_defaulted (Codec.Exact.keeps Codec.exact_bool) (fun _ _ => rfl) rfl ⟨0, .bool 0 false⟩) <|
    .nil
  distinct := by decide
  blank := rfl
  alone index field found _ _ _ _ read := by
    rcases index with _ | _ | _ | _ | _ | _ | _ | index <;> cases found
    all_goals
      obtain ⟨_, _, rfl⟩ := (map_eq_ok_iff ..).1 read
      exact ⟨rfl, rfl⟩
  rest _ _ := ⟨rfl, rfl⟩

namespace Document

/-- Nothing of a document is lost when it is read and written: what it is written as has every member at its place, and
its lists keep all their items. -/
theorem toJson_preserved {levels : Nat} {source : Source} {value : Json} {doc : Document}
    (wellFormed : value.WellFormed) (shown : source.Denotes value) (read : codec.read levels source = .ok doc) :
    form.Preserved value doc.toJson ∧ doc.toJson.WellFormed := by
  obtain ⟨depth, sound⟩ := wellFormed
  exact shape_keeps.codec_keeps sound shown read

theorem toJson_preserved_slot :
    let slot := Json.object [("name", .text "image"), ("type", .text "IMAGE"), ("link", .null), ("shape", .ofNat 7)]
    let node := Json.object [("id", .ofNat 4), ("type", .text "Save"), ("widgets_values", .null),
      ("inputs", .array [slot])]
    let value := Json.object [("nodes", .array [node]), ("version", .ofNat 1)]
    let doc := { empty with
      nodes := [{ Node.plain (.number 4) "Save" with
        inputs := [{ InputSlot.plain "image" "IMAGE" with extra := [("shape", .ofNat 7)] }] }]
      rest := [("version", .ofNat 1)] }
    form.Preserved value doc.toJson ∧ doc.toJson.WellFormed := by
  intro slot node value doc
  have canonical : (Source.ofJson value).Canonical := by
    simp only [value, node, slot, Source.ofJson, Source.ofItems, Source.ofMembers, Source.Canonical, Items.Canonical,
      Members.Canonical, Json.ofNat, Number.Canonical, and_self]
  have wellFormed : value.WellFormed := ⟨Source.nestingLimit, canonical.sound rfl⟩
  have read : codec.ofJson value = .ok doc := rfl
  exact toJson_preserved wellFormed (Source.denotes_ofJson value) read

end Document
end Patchbay
