import Patchbay.Proofs.Stored.Preservation

/-!
Objects that are read and written again. `Shape.Keeps` says what has to hold of the fields of a shape; then every
member that is read is written, whether a field names it or not: `Shape.Keeps.codec_keeps`.
-/
set_option autoImplicit false

namespace Patchbay

variable {α β : Type}

/-! ### Fields -/

/-- What is written of a member that was read: a value that preserves it, or nothing if the member may be left out. -/
def MemberForm.Kept (member : MemberForm) (value : Json) : Option Json → Prop
  | some after => member.form.Preserved value after ∧ after.WellFormed
  | none => member.presence.MayDrop value

/-- A field keeps the member that it reads. If there is none, it is written with its default or not at all. -/
structure Field.Keeps (field : Field α) (blank : α) (member : MemberForm) : Prop where
  name : field.name = member.name
  kept : ∀ {depth levels : Nat} {source : Source} {value : Json} {a b : α}, value.Sound depth →
    source.Denotes value → field.read levels source a = .ok b → member.Kept value (field.write b)
  absent : field.required = false → ∀ after, field.write blank = some after →
    member.presence = .defaulted after ∧ after.WellFormed

namespace Field

variable {codec : Codec β} {form : Form} {set : α → β → α} {blank : α}

theorem keeps_needed {name : String} {get : α → β} (keeps : codec.Keeps form) (get_set : ∀ a b, get (set a b) = b) :
    (needed name codec get set).Keeps blank ⟨name, .needed, form⟩ where
  name := rfl
  kept {depth levels source value a b} sound shown read := by
    obtain ⟨found, inner, rfl⟩ := (map_eq_ok_iff ..).1 read
    change form.Preserved value (codec.write (get (set a found))) ∧ (codec.write (get (set a found))).WellFormed
    rw [get_set]
    exact keeps sound shown inner
  absent optional := nomatch optional

theorem keeps_defaulted {name : String} {get : α → β} {value : Json} (keeps : codec.Keeps form)
    (get_set : ∀ a b, get (set a b) = b) (default : codec.write (get blank) = value) (wellFormed : value.WellFormed) :
    (defaulted name codec get set).Keeps blank ⟨name, .defaulted value, form⟩ where
  name := rfl
  kept {depth levels source value a b} sound shown read := by
    obtain ⟨found, inner, rfl⟩ := (map_eq_ok_iff ..).1 read
    change form.Preserved value (codec.write (get (set a found))) ∧ (codec.write (get (set a found))).WellFormed
    rw [get_set]
    exact keeps sound shown inner
  absent _ after written := by
    obtain rfl : codec.write (get blank) = after := Option.some.inj written
    exact ⟨congrArg _ default.symm, default ▸ wellFormed⟩

theorem keeps_optional {name : String} {get : α → Option β} {set : α → Option β → α} (keeps : codec.Keeps form)
    (get_set : ∀ a b, get (set a b) = b) (nothing : get blank = none) :
    (optional name codec get set).Keeps blank ⟨name, .optional, form⟩ where
  name := rfl
  kept {depth levels source value a b} sound shown read := by
    obtain ⟨found, inner, rfl⟩ := (map_eq_ok_iff ..).1 read
    change MemberForm.Kept _ value ((get (set a found)).map codec.write)
    rw [get_set]
    have present (some? : some <$> codec.read levels source = .ok found) :
        MemberForm.Kept ⟨name, .optional, form⟩ value (found.map codec.write) := by
      obtain ⟨b, own, rfl⟩ := (map_eq_ok_iff ..).1 some?
      exact keeps sound shown own
    cases shown with
    | null stop => cases inner; exact rfl
    | _ => exact present inner
  absent _ after written := by
    obtain ⟨b, found, -⟩ := Option.map_eq_some_iff.1 written
    rw [nothing] at found
    cases found

theorem names_eq {fields : List (Field α)} {members : List MemberForm}
    (keeps : List.Forall₂ (fun field member => field.Keeps blank member) fields members) :
    fields.map (·.name) = members.map (·.name) := by
  induction keeps with
  | nil => rfl
  | cons own _ ih => rw [List.map_cons, List.map_cons, own.name, ih]

end Field

/-! ### Shapes -/

/-- Fields and members correspond, no field touches what another one writes or the members that no field names. -/
structure Shape.Keeps (shape : Shape α) (get : α → Fields) (set : α → Fields → α) (members : List MemberForm) :
    Prop where
  surplus : shape.surplus = .kept get set
  fields : List.Forall₂ (fun field member => field.Keeps shape.blank member) shape.fields members
  distinct : (members.map (·.name)).Nodup
  blank : get shape.blank = []
  alone : ∀ (index : Nat) (field : Field α), shape.fields[index]? = some field → ∀ {levels source a b},
    field.read levels source a = .ok b → get b = get a ∧
      shape.fields.map (·.write b) = (shape.fields.map (·.write a)).set index (field.write b)
  rest : ∀ a more, get (set a more) = more ∧ shape.fields.map (·.write (set a more)) = shape.fields.map (·.write a)

namespace Shape

variable {shape : Shape α} {get : α → Fields} {set : α → Fields → α} {members : List MemberForm}

/-- The members of an object that no field names. -/
def unknown (shape : Shape α) (fields : Fields) : Fields :=
  fields.filter fun member => (shape.fields.find? (·.name == member.1)).isNone

/-- A value in the making, with the members that were read so far. -/
structure Reading (shape : Shape α) (get : α → Fields) (before : Fields) (draft : Draft α) : Prop where
  seen : ∀ field ∈ shape.fields, field.name ∈ draft.seen ↔ field.name ∈ before.map Prod.fst
  given : ∀ field ∈ shape.fields, ∀ value, (field.name, value) ∈ before → ∃ levels, ∃ source : Source, ∃ a b,
    source.Denotes value ∧ field.read levels source a = .ok b ∧ field.write draft.value = field.write b
  absent : ∀ field ∈ shape.fields, field.name ∉ before.map Prod.fst →
    field.write draft.value = field.write shape.blank
  rest : get draft.value = shape.unknown before

namespace Keeps

theorem distinct_names (keeps : shape.Keeps get set members) : (shape.fields.map (·.name)).Nodup :=
  Field.names_eq keeps.fields ▸ keeps.distinct

theorem eq_of_name (keeps : shape.Keeps get set members) {field other : Field α} (member : field ∈ shape.fields)
    (otherMember : other ∈ shape.fields) (same : field.name = other.name) : field = other :=
  List.inj_on_of_nodup_map keeps.distinct_names member otherMember same

/-- Reading a member changes no other one. -/
theorem write_other (keeps : shape.Keeps get set members) {field other : Field α} {levels : Nat} {source : Source}
    {a b : α} (member : field ∈ shape.fields) (otherMember : other ∈ shape.fields) (differ : other ≠ field)
    (read : field.read levels source a = .ok b) : other.write b = other.write a := by
  obtain ⟨index, inFields, at?⟩ := List.getElem_of_mem member
  obtain ⟨place, inPlace, atPlace⟩ := List.getElem_of_mem otherMember
  have apart : index ≠ place := by rintro rfl; exact differ (atPlace.symm.trans at?)
  have all := (keeps.alone index field (at? ▸ List.getElem?_eq_getElem inFields) read).2
  have here := congrArg (·[place]?) all
  simp only [List.getElem?_set_ne apart, List.getElem?_map, List.getElem?_eq_getElem inPlace, atPlace,
    Option.map_some, Option.some.injEq] at here
  exact here

theorem write_set (keeps : shape.Keeps get set members) {field : Field α} (member : field ∈ shape.fields) (a : α)
    (more : Fields) : field.write (set a more) = field.write a :=
  List.map_inj_left.1 (keeps.rest a more).2 field member

theorem reading_blank (keeps : shape.Keeps get set members) : shape.Reading get [] ⟨shape.blank, []⟩ where
  seen _ _ := ⟨fun h => (nomatch h), fun h => (nomatch h)⟩
  given _ _ _ h := nomatch h
  absent _ _ _ := rfl
  rest := keeps.blank

theorem reading_step (keeps : shape.Keeps get set members) {before : Fields} {draft next : Draft α} {key : String}
    {value : Json} {depth levels : Nat} {source : Source} {reader : Source → Except Trouble (Draft α)}
    (reading : shape.Reading get before draft) (fresh : key ∉ before.map Prod.fst) (sound : value.Sound depth)
    (shown : source.Denotes value) (selected : shape.select levels draft key = .ok reader)
    (read : reader source = .ok next) : shape.Reading get (before ++ [(key, value)]) next := by
  unfold select at selected
  split at selected
  · next field found =>
    have named : field.name = key := by simpa using List.find?_some found
    have own : field ∈ shape.fields := List.mem_of_find?_eq_some found
    split at selected
    · cases selected
    cases selected
    obtain ⟨b, fieldRead, same⟩ := (bind_eq_ok_iff ..).1 read
    cases same
    have others {other : Field α} (member : other ∈ shape.fields) (differ : other.name ≠ key) :
        other.write b = other.write draft.value :=
      keeps.write_other own member (fun same => differ (same ▸ named)) fieldRead
    refine ⟨fun other member => ?_, fun other member otherValue there => ?_, fun other member absent => ?_, ?_⟩
    · rw [List.mem_cons, reading.seen other member, List.map_append, List.mem_append, or_comm]
      exact or_congr_right (by simp)
    · rcases List.mem_append.1 there with earlier | here
      · have differ : other.name ≠ key := fun same => fresh (same ▸ List.mem_map_of_mem earlier)
        obtain ⟨levels, source, a, c, shown, otherRead, written⟩ := reading.given other member otherValue earlier
        exact ⟨levels, source, a, c, shown, otherRead, (others member differ).trans written⟩
      · obtain ⟨same, rfl⟩ := Prod.mk.inj (List.mem_singleton.1 here)
        obtain rfl := keeps.eq_of_name member own (same.trans named.symm)
        exact ⟨levels, source, draft.value, b, shown, fieldRead, rfl⟩
    · rw [List.map_append, List.mem_append, not_or] at absent
      rw [others member (by simpa using absent.2), reading.absent other member absent.1]
    · obtain ⟨index, inFields, at?⟩ := List.getElem_of_mem own
      rw [(keeps.alone index field (at? ▸ List.getElem?_eq_getElem inFields) fieldRead).1, reading.rest, unknown,
        unknown, List.filter_append, List.filter_cons_of_neg (by simp [found]), List.filter_nil, List.append_nil]
  · next foreign =>
    have unnamed {other : Field α} (member : other ∈ shape.fields) : other.name ≠ key := by
      simpa using List.find?_eq_none.1 foreign other member
    rw [keeps.surplus] at selected
    cases selected
    obtain ⟨found, valueRead, same⟩ := (bind_eq_ok_iff ..).1 read
    cases same
    obtain rfl := shown.eq_of_value sound valueRead
    refine ⟨fun other member => ?_, fun other member otherValue there => ?_, fun other member absent => ?_, ?_⟩
    · rw [reading.seen other member, List.map_append, List.mem_append]
      exact (or_iff_left (by simpa using unnamed member)).symm
    · rcases List.mem_append.1 there with earlier | here
      · obtain ⟨levels, source, a, c, shown, otherRead, written⟩ := reading.given other member otherValue earlier
        exact ⟨levels, source, a, c, shown, otherRead, (keeps.write_set member ..).trans written⟩
      · exact absurd (Prod.mk.inj (List.mem_singleton.1 here)).1 (unnamed member)
    · rw [List.map_append, List.mem_append, not_or] at absent
      rw [keeps.write_set member, reading.absent other member absent.1]
    · have freshRest : key ∉ (shape.unknown before).map Prod.fst := fun there => by
        obtain ⟨member, own, same⟩ := List.mem_map.1 there
        exact fresh (same ▸ List.mem_map_of_mem (List.mem_of_mem_filter own))
      rw [(keeps.rest ..).1, reading.rest, Fields.put_of_absent freshRest, unknown, unknown, List.filter_append,
        List.filter_cons_of_pos (by simp [foreign]), List.filter_nil]

/-- All members of an object are read one after the other. -/
theorem reading_run (keeps : shape.Keeps get set members) {depth levels : Nat} : ∀ {source : Members}
    (before : Fields) {fields : Fields} {draft final : Draft α}, source.Denote fields →
      ((before ++ fields).map Prod.fst).Nodup → (∀ member ∈ fields, member.2.Sound depth) →
        shape.Reading get before draft → source.readAll (shape.select levels) shape.complete draft = .ok final →
          shape.Reading get (before ++ fields) final ∧ shape.complete final = .ok final
  | _, before, _, draft, final, .closed stop, _, _, reading, read => by
    have completed : shape.complete draft = .ok final := (located_eq_ok_iff ..).1 read
    have same : draft = final := by
      unfold complete at completed
      split at completed
      · cases completed
      · exact Except.ok.inj completed
    rw [List.append_nil, ← same]
    exact ⟨reading, same ▸ completed⟩
  | _, before, _, draft, final, .member key afterKey after first later, distinct, sound, reading, read => by
    rename_i source value rest fields
    rw [Members.readAll] at read
    obtain ⟨name, same, read⟩ := (bind_eq_ok_iff ..).1 read
    cases same
    obtain ⟨reader, selected, read⟩ := (bind_eq_ok_iff ..).1 read
    obtain ⟨next, nextRead, read⟩ := (bind_eq_ok_iff ..).1 read
    have step := keeps.reading_step reading (Fields.absent_of_distinct distinct)
      (sound (key, value) List.mem_cons_self) first ((located_eq_ok_iff ..).1 selected)
      ((located_eq_ok_iff ..).1 nextRead)
    rw [List.append_cons] at distinct ⊢
    exact keeps.reading_run _ later distinct (fun member there => sound member (List.mem_cons_of_mem _ there)) step read

/-- A field was given a member and keeps it, or there is none and it is written with its default or not at all. -/
theorem outcome {fields : Fields} {draft : Draft α} {depth : Nat}
    (sound : ∀ member ∈ fields, member.2.Sound depth) (reading : shape.Reading get fields draft)
    (completed : shape.complete draft = .ok draft) {field : Field α} {member : MemberForm}
    (own : field ∈ shape.fields) (fits : field.Keeps shape.blank member) :
    (∃ value, (field.name, value) ∈ fields ∧ member.Kept value (field.write draft.value)) ∨
      (field.name ∉ fields.map Prod.fst ∧ ∀ after, field.write draft.value = some after →
        member.presence = .defaulted after ∧ after.WellFormed) := by
  by_cases there : field.name ∈ fields.map Prod.fst
  · obtain ⟨⟨_, value⟩, there, rfl⟩ := List.mem_map.1 there
    obtain ⟨levels, source, a, b, shown, read, written⟩ := reading.given field own value there
    exact .inl ⟨value, there, written ▸ fits.kept (sound _ there) shown read⟩
  · refine .inr ⟨there, ?_⟩
    have unseen : field.name ∉ draft.seen := fun seen => there ((reading.seen field own).1 seen)
    have optional : field.required = false := by
      unfold complete at completed
      split at completed
      · cases completed
      · next none => simpa [unseen] using List.find?_eq_none.1 none field own
    rw [reading.absent field own there]
    exact fits.absent optional

end Keeps

/-! ### Members that are written -/

/-- The members that fields write, in their order. -/
def written (fields : List (Field α)) (a : α) : Fields :=
  fields.filterMap fun field => (field.write a).map (field.name, ·)

theorem mem_written {fields : List (Field α)} {a : α} {member : String × Json} (there : member ∈ written fields a) :
    ∃ field ∈ fields, field.name = member.1 ∧ field.write a = some member.2 := by
  obtain ⟨field, own, found⟩ := List.mem_filterMap.1 there
  obtain ⟨value, wrote, rfl⟩ := Option.map_eq_some_iff.1 found
  exact ⟨field, own, rfl, wrote⟩

theorem keys_written_sublist (fields : List (Field α)) (a : α) :
    ((written fields a).map Prod.fst).Sublist (fields.map (·.name)) := by
  induction fields with
  | nil => exact .slnil
  | cons field rest ih =>
    unfold written at ih ⊢
    rw [List.filterMap_cons, List.map_cons]
    cases field.write a with
    | none => exact ih.cons field.name
    | some value => exact ih.cons_cons field.name

theorem get?_written {fields : List (Field α)} (distinct : (fields.map (·.name)).Nodup) (a : α) (key : String) :
    Fields.get? key (written fields a) = (fields.find? (·.name == key)).bind (·.write a) := by
  induction fields with
  | nil => rfl
  | cons field rest ih =>
    obtain ⟨fresh, distinct⟩ := List.nodup_cons.1 distinct
    have later := ih distinct
    unfold written at later ⊢
    rw [List.filterMap_cons, List.find?_cons]
    by_cases here : field.name = key
    · rw [beq_iff_eq.2 here, Option.bind_some]
      cases field.write a with
      | none =>
        refine Fields.get?_eq_none_iff.2 fun there => fresh ?_
        change field.name ∈ _
        rw [here]
        exact (keys_written_sublist rest a).mem there
      | some value => exact if_pos here
    · rw [beq_eq_false_iff_ne.2 here, ← later]
      cases field.write a with
      | none => rfl
      | some value => exact if_neg here

theorem get?_unknown (shape : Shape α) (fields : Fields) (key : String) :
    Fields.get? key (shape.unknown fields) =
      if (shape.fields.find? (·.name == key)).isNone then Fields.get? key fields else none := by
  induction fields with
  | nil => split <;> rfl
  | cons head rest ih =>
    unfold unknown at ih ⊢
    rw [List.filter_cons, Fields.get?]
    by_cases here : head.1 = key
    · rw [← here] at ih ⊢
      rw [if_pos rfl]
      split
      · exact if_pos rfl
      · next known => rw [ih, if_neg known]
    · rw [if_neg here, ← ih]
      split
      · exact if_neg here
      · rfl

theorem find_member {fields : List (Field α)} {members : List MemberForm} {blank : α}
    (keeps : List.Forall₂ (fun field member => field.Keeps blank member) fields members) (key : String) :
    Option.Rel (fun field member => field.Keeps blank member) (fields.find? (·.name == key))
      (members.find? (·.name == key)) := by
  induction keeps with
  | nil => exact .none
  | cons own _ ih =>
    rw [List.find?_cons, List.find?_cons, own.name]
    split
    · exact .some own
    · exact ih

namespace Keeps

/-- A value that was read is written with its fields and the members that no field names. -/
theorem write_eq (keeps : shape.Keeps get set members) {fields : Fields} {draft : Draft α}
    (reading : shape.Reading get fields draft) :
    shape.codec.write draft.value = .object (written shape.fields draft.value ++ shape.unknown fields) := by
  change Json.object (written shape.fields draft.value ++ shape.rest draft.value) = _
  rw [Shape.rest, keeps.surplus]
  exact congrArg (fun more => Json.object (_ ++ more)) reading.rest

theorem read_eq_ok (keeps : shape.Keeps get set members) {depth levels : Nat} {source : Source} {value : Json} {a : α}
    (sound : value.Sound depth) (shown : source.Denotes value) (read : shape.codec.read levels source = .ok a) :
    ∃ fields draft, value = .object fields ∧ draft.value = a ∧ shape.Reading get fields draft ∧
      shape.complete draft = .ok draft := by
  change shape.read levels source = .ok a at read
  rw [Shape.read.eq_def, keeps.surplus] at read
  cases shown with
  | object start shown =>
    cases sound with
    | object depth fields distinct sound =>
      obtain ⟨rest, -, inside⟩ := (enter_eq_ok_iff ..).1 read
      obtain ⟨draft, inside, same⟩ := (map_eq_ok_iff ..).1 inside
      obtain ⟨reading, completed⟩ := keeps.reading_run [] shown distinct sound keeps.reading_blank inside
      exact ⟨_, draft, rfl, same, reading, completed⟩
  | _ => cases read

/-- Look-ups before and after: what a field names is kept or may be left out, other members are the same. -/
theorem get?_preserved (keeps : shape.Keeps get set members) {fields : Fields} {draft : Draft α} {depth : Nat}
    (distinct : (fields.map Prod.fst).Nodup) (sound : ∀ member ∈ fields, member.2.Sound depth)
    (reading : shape.Reading get fields draft) (completed : shape.complete draft = .ok draft) :
    (Form.object members).Preserved (.object fields)
      (.object (written shape.fields draft.value ++ shape.unknown fields)) := by
  refine ⟨fields, _, rfl, rfl, fun key => ?_⟩
  rw [Fields.get?_append, get?_written keeps.distinct_names, get?_unknown]
  have pair := find_member keeps.fields key
  beta_reduce
  generalize found : shape.fields.find? (·.name == key) = field? at pair ⊢
  generalize members.find? (·.name == key) = member? at pair ⊢
  cases pair with
  | none =>
    rw [Option.bind_none, Option.none_or, Option.isNone_none, if_pos rfl]
    cases Fields.get? key fields with
    | none => trivial
    | some value => rfl
  | some fits =>
    rename_i field member
    have named : field.name = key := by simpa using List.find?_some found
    rw [Option.bind_some, Option.isNone_some, if_neg Bool.false_ne_true, Option.or_none]
    rcases outcome sound reading completed (List.mem_of_find?_eq_some found) fits with
      ⟨value, there, kept⟩ | ⟨gone, default⟩
    · rw [Fields.get?_of_mem distinct (named ▸ there)]
      cases wrote : field.write draft.value with
      | none => rw [wrote] at kept; exact ⟨member.presence, rfl, kept⟩
      | some after => rw [wrote] at kept; exact kept.1
    · rw [Fields.get?_eq_none_iff.2 (named ▸ gone)]
      cases wrote : field.write draft.value with
      | none => trivial
      | some after => exact congrArg some (default after wrote).1

theorem wellFormed_written (keeps : shape.Keeps get set members) {fields : Fields} {draft : Draft α} {depth : Nat}
    (distinct : (fields.map Prod.fst).Nodup) (sound : ∀ member ∈ fields, member.2.Sound depth)
    (reading : shape.Reading get fields draft) (completed : shape.complete draft = .ok draft) :
    (Json.object (written shape.fields draft.value ++ shape.unknown fields)).WellFormed := by
  refine Json.wellFormed_object ?_ fun member there => ?_
  · rw [List.map_append]
    refine List.nodup_append.2 ⟨(keys_written_sublist ..).nodup keeps.distinct_names,
      (List.filter_sublist.map Prod.fst).nodup distinct, ?_⟩
    rintro key inWritten _ inUnknown rfl
    obtain ⟨field, own, named⟩ := List.mem_map.1 ((keys_written_sublist ..).mem inWritten)
    obtain ⟨member, there, rfl⟩ := List.mem_map.1 inUnknown
    have foreign := List.find?_eq_none.1 (Option.isNone_iff_eq_none.1 (List.mem_filter.1 there).2) field own
    exact foreign (beq_iff_eq.2 named)
  · rcases List.mem_append.1 there with named | foreign
    · obtain ⟨field, own, -, wrote⟩ := mem_written named
      have fit : ∃ member, field.Keeps shape.blank member := by
        obtain ⟨index, inFields, rfl⟩ := List.getElem_of_mem own
        exact ⟨_, (List.forall₂_iff_get.1 keeps.fields).2 index inFields
          ((List.forall₂_iff_get.1 keeps.fields).1 ▸ inFields)⟩
      obtain ⟨form, fits⟩ := fit
      rcases outcome sound reading completed own fits with ⟨value, there, kept⟩ | ⟨gone, default⟩
      · rw [wrote] at kept
        exact kept.2
      · exact (default _ wrote).2
    · exact ⟨depth, sound member (List.mem_of_mem_filter foreign)⟩

/-- Every member of an object is written as it was read, or may be left out; every other member that is written has
its default. -/
theorem codec_keeps (keeps : shape.Keeps get set members) : shape.codec.Keeps (.object members) := by
  intro depth levels source value a sound shown read
  obtain ⟨fields, draft, rfl, rfl, reading, completed⟩ := keeps.read_eq_ok sound shown read
  cases sound with
  | object depth _ distinct sound =>
    rw [keeps.write_eq reading]
    exact ⟨keeps.get?_preserved distinct sound reading completed,
      keeps.wellFormed_written distinct sound reading completed⟩

end Keeps
end Shape

/-! ### Tables -/

namespace Codec

variable {codec : Codec α}

/-- A table holds what was read for each key. -/
def Tabled (codec : Codec α) (levels : Nat) (fields : Fields) (table : Table α) : Prop :=
  ∀ key, Option.Rel (fun value a => ∃ source : Source, source.Denotes value ∧ codec.read levels source = .ok a)
    (Fields.get? key fields) (table.get? key)

theorem tabled_insert {levels : Nat} {fields : Fields} {table : Table α} {key : String} {source : Source}
    {value : Json} {a : α} (tabled : codec.Tabled levels fields table) (fresh : key ∉ fields.map Prod.fst)
    (shown : source.Denotes value) (read : codec.read levels source = .ok a) :
    codec.Tabled levels (fields ++ [(key, value)]) (table.insert key a) := by
  intro query
  rw [Fields.get?_append, Table.get?_insert]
  by_cases here : query = key
  · rw [if_pos here, here, Fields.get?_eq_none_iff.2 fresh, Option.none_or, Fields.get?, if_pos rfl]
    exact .some ⟨source, shown, read⟩
  · rw [if_neg here, Fields.get?, if_neg (Ne.symm here), Fields.get?, Option.or_none]
    exact tabled query

theorem tabled_run {levels : Nat} : ∀ {source : Members} (before : Fields) {fields : Fields} {table final : Table α},
    source.Denote fields → ((before ++ fields).map Prod.fst).Nodup → codec.Tabled levels before table →
      source.readAll (fun table key => .ok fun value => table.insert key <$> codec.read levels value) .ok table =
        .ok final → codec.Tabled levels (before ++ fields) final
  | _, before, _, table, final, .closed stop, _, tabled, read => by
    obtain rfl : table = final := Except.ok.inj ((located_eq_ok_iff stop ..).1 read)
    rw [List.append_nil]
    exact tabled
  | _, before, _, table, final, .member key afterKey after first later, distinct, tabled, read => by
    rename_i source value rest fields
    rw [Members.readAll] at read
    obtain ⟨name, same, read⟩ := (bind_eq_ok_iff ..).1 read
    cases same
    obtain ⟨reader, selected, read⟩ := (bind_eq_ok_iff ..).1 read
    cases selected
    obtain ⟨next, nextRead, read⟩ := (bind_eq_ok_iff ..).1 read
    obtain ⟨a, valueRead, rfl⟩ := (map_eq_ok_iff ..).1 ((located_eq_ok_iff ..).1 nextRead)
    have step := tabled_insert tabled (Fields.absent_of_distinct distinct) first valueRead
    rw [List.append_cons] at distinct ⊢
    exact tabled_run _ later distinct step read

theorem table_read {levels : Nat} {source : Source} {value : Json} {table : Table α} {depth : Nat}
    (sound : value.Sound depth) (shown : source.Denotes value) (read : codec.table.read levels source = .ok table) :
    ∃ fields below, value = .object fields ∧ codec.Tabled below fields table := by
  cases shown with
  | object start shown =>
    cases sound with
    | object depth fields distinct sound =>
      dsimp only [Codec.table] at read
      obtain ⟨rest, -, inside⟩ := (enter_eq_ok_iff ..).1 read
      exact ⟨_, rest + 1, rfl, tabled_run [] shown distinct (fun _ => .none) inside⟩
  | _ => cases read

theorem get?_entries (write : α → Json) (entries : List (String × α)) (key : String) :
    Fields.get? key (entries.map fun e => (e.1, write e.2)) = (Table.find key entries).map write := by
  induction entries with
  | nil => rfl
  | cons head rest ih =>
    rw [List.map_cons, Fields.get?, Table.find]
    by_cases here : key = head.1
    · rw [if_pos here, if_pos here.symm]
      rfl
    · rw [if_neg here, if_neg (Ne.symm here), ih]

theorem distinct_entries (write : α → Json) (table : Table α) :
    ((table.entries.map fun e => (e.1, write e.2)).map Prod.fst).Nodup := by
  rw [List.map_map]
  refine List.pairwise_map.2 (table.sorted.imp fun {a b} less same => ?_)
  change a.1 = b.1 at same
  exact String.lt_irrefl b.1 (same ▸ less)

theorem Keeps.table {form : Form} (keeps : codec.Keeps form) : codec.table.Keeps (.table form) := by
  intro depth levels source value table sound shown read
  obtain ⟨fields, below, rfl, tabled⟩ := table_read sound shown read
  cases sound with
  | object depth _ distinct sound =>
    have kept (key : String) : Option.Rel (fun value after => form.Preserved value after ∧ after.WellFormed)
        (Fields.get? key fields) ((table.get? key).map codec.write) := by
      have pair := tabled key
      generalize found : Fields.get? key fields = value? at pair ⊢
      generalize table.get? key = a? at pair ⊢
      cases pair with
      | none => exact .none
      | some own =>
        obtain ⟨source, shown, read⟩ := own
        exact .some (keeps (sound _ (Fields.mem_of_get? found)) shown read)
    have written (key : String) : Fields.get? key (table.entries.map fun e => (e.1, codec.write e.2)) =
        (table.get? key).map codec.write := get?_entries codec.write table.entries key
    have sorted := distinct_entries codec.write table
    refine ⟨⟨fields, _, rfl, rfl, fun key => ?_⟩, Json.wellFormed_object sorted fun member there => ?_⟩
    · rw [written]
      have pair := kept key
      generalize Fields.get? key fields = value? at pair ⊢
      generalize (table.get? key).map codec.write = after? at pair ⊢
      cases pair with
      | none => trivial
      | some own => exact own.1
    · have pair := kept member.1
      rw [← written, Fields.get?_of_mem sorted there] at pair
      generalize Fields.get? member.1 fields = value? at pair
      cases pair with
      | some own => exact own.2

end Codec

theorem Field.keeps_unlessEmpty {codec : Codec β} {form : Form} {name : String} {get : α → Table β}
    {set : α → Table β → α} {blank : α} (keeps : codec.Keeps form) (get_set : ∀ a b, get (set a b) = b)
    (nothing : get blank = .empty) :
    (unlessEmpty name codec get set).Keeps blank ⟨name, .unlessEmpty, .table form⟩ where
  name := rfl
  kept {depth levels source value a b} sound shown read := by
    obtain ⟨found, inner, rfl⟩ := (map_eq_ok_iff ..).1 read
    change MemberForm.Kept _ value
      (if (get (set a found)).isEmpty then none else some (codec.table.write (get (set a found))))
    rw [get_set]
    split
    · next empty =>
      obtain ⟨fields, below, rfl, tabled⟩ := Codec.table_read sound shown inner
      cases fields with
      | nil => rfl
      | cons head rest =>
        have first := tabled head.1
        rw [Fields.get?, if_pos rfl, Table.get?, List.isEmpty_iff.1 empty] at first
        cases first
    · exact keeps.table sound shown inner
  absent _ after written := by
    change (if (get blank).isEmpty then none else _) = _ at written
    rw [nothing] at written
    cases written

end Patchbay
