import Patchbay.Proofs.Stored.Rereading

/-!
Objects that are read back. Members that no field names must not have the name of a field, and no two of them the same
name; then the object is read as the value it was written for: `Shape.Stores.codec`.
-/
set_option autoImplicit false

namespace Patchbay

variable {α β : Type}

/-- Members beside those that have the given names, as reading keeps them. -/
structure Fields.Spare (levels : Nat) (names : List String) (fields : Fields) : Prop where
  distinct : (fields.map Prod.fst).Nodup
  foreign : ∀ member ∈ fields, member.1 ∉ names
  sound : ∀ member ∈ fields, member.2.Sound levels

theorem Fields.spare_nil (levels : Nat) (names : List String) : Fields.Spare levels names [] :=
  ⟨.nil, List.forall_mem_nil _, List.forall_mem_nil _⟩

theorem Fields.Spare.put {levels : Nat} {names : List String} {fields : Fields} (spare : fields.Spare levels names)
    {key : String} {value : Json} (foreign : key ∉ names) (sound : value.Sound levels) :
    (Fields.put key value fields).Spare levels names where
  distinct := Fields.put_distinct spare.distinct key value
  foreign member there := by
    rcases Fields.mem_put there with rfl | old
    · exact foreign
    · exact spare.foreign member old
  sound member there := by
    rcases Fields.mem_put there with rfl | old
    · exact sound
    · exact spare.sound member old

/-! ### Fields -/

/-- Reading a field keeps a value clean, and reading what it was written as copies it from one value to another. -/
structure Field.Stores (field : Field α) (levels : Nat) (Clean : α → Prop) (copy : α → α → α) : Prop where
  yields : ∀ {source : Source} {a b : α}, source.Canonical → Clean a → field.read levels source a = .ok b → Clean b
  present : ∀ {source : Source} {a b : α} {value : Json}, Clean a → field.write a = some value →
    source.Denotes value → field.read levels source b = .ok (copy a b)
  absent : ∀ {a b : α}, field.write a = none → copy a b = b
  required : field.required = true → ∀ a, field.write a ≠ none
  sound : ∀ {a : α} {value : Json}, Clean a → field.write a = some value → value.Sound levels

namespace Field

variable {codec : Codec β} {levels : Nat} {Clean : α → Prop} {Part : β → Prop}

theorem stores_ofCodec (stores : codec.Stores levels Part) (required : Bool) (name : String) {get : α → β}
    {set : α → β → α} (part : ∀ {a}, Clean a → Part (get a)) (whole : ∀ {a b}, Clean a → Part b → Clean (set a b)) :
    (ofCodec required name codec get set).Stores levels Clean fun a b => set b (get a) where
  yields {source a b} canonical clean read := by
    obtain ⟨found, inner, rfl⟩ := (map_eq_ok_iff ..).1 read
    exact whole clean (stores.yields canonical inner)
  present {source a b value} clean written shown := by
    obtain rfl : codec.write (get a) = value := Option.some.inj written
    exact (map_eq_ok_iff ..).2 ⟨_, stores.returns (part clean) shown, rfl⟩
  absent written := nomatch written
  required _ a written := nomatch written
  sound {a value} clean written := by
    obtain rfl : codec.write (get a) = value := Option.some.inj written
    exact stores.sound (part clean)

theorem stores_optional (stores : codec.Stores levels Part) (some? : ∀ {b}, Part b → codec.write b ≠ .null)
    (name : String) {get : α → Option β} {set : α → Option β → α} (part : ∀ {a}, Clean a → ∀ b ∈ get a, Part b)
    (whole : ∀ {a b?}, Clean a → (∀ b ∈ b?, Part b) → Clean (set a b?)) :
    (optional name codec get set).Stores levels Clean fun a b => match get a with
      | none => b
      | some x => set b (some x) where
  yields {source a b} canonical clean read := by
    obtain ⟨found, inner, rfl⟩ := (map_eq_ok_iff ..).1 read
    exact whole clean ((stores.nullable some?).yields canonical inner)
  present {source a b value} clean written shown := by
    obtain ⟨x, found, rfl⟩ := Option.map_eq_some_iff.1 written
    have inner : codec.nullable.read levels source = .ok (some x) :=
      (stores.nullable some?).returns (fun y member => part clean y (found.trans member)) shown
    rw [found]
    exact (map_eq_ok_iff ..).2 ⟨_, inner, rfl⟩
  absent {a b} written := by
    rw [Option.map_eq_none_iff.1 written]
  required needed := nomatch needed
  sound {a value} clean written := by
    obtain ⟨x, found, rfl⟩ := Option.map_eq_some_iff.1 written
    exact stores.sound (part clean x found)

theorem stores_unlessEmpty (stores : codec.table.Stores levels fun table => ∀ e ∈ table.entries, Part e.2)
    (name : String) {get : α → Table β} {set : α → Table β → α}
    (part : ∀ {a}, Clean a → ∀ e ∈ (get a).entries, Part e.2)
    (whole : ∀ {a table}, Clean a → (∀ e ∈ table.entries, Part e.2) → Clean (set a table)) :
    (unlessEmpty name codec get set).Stores levels Clean fun a b => if (get a).isEmpty then b else set b (get a) where
  yields {source a b} canonical clean read := by
    obtain ⟨found, inner, rfl⟩ := (map_eq_ok_iff ..).1 read
    exact whole clean (stores.yields canonical inner)
  present {source a b value} clean written shown := by
    change (if (get a).isEmpty then none else some (codec.table.write (get a))) = _ at written
    split at written
    · cases written
    · next some =>
      obtain rfl := Option.some.inj written
      rw [if_neg some]
      exact (map_eq_ok_iff ..).2 ⟨_, stores.returns (part clean) shown, rfl⟩
  absent {a b} written := by
    change (if (get a).isEmpty then none else some (codec.table.write (get a))) = _ at written
    split at written
    · next none => exact if_pos none
    · cases written
  required needed := nomatch needed
  sound {a value} clean written := by
    change (if (get a).isEmpty then none else some (codec.table.write (get a))) = _ at written
    split at written
    · cases written
    · obtain rfl := Option.some.inj written
      exact stores.sound (part clean)

end Field

/-! ### Shapes -/

theorem Members.readAll_member {σ : Type} {select : σ → String → Except Trouble (Source → Except Trouble σ)}
    {state next : σ} {key : String} {reader : Source → Except Trouble σ} {value : Source}
    (selected : select state key = .ok reader) (read : reader value = .ok next) (finish : σ → Except Trouble σ)
    (afterKey after : Nat) (rest : Members) :
    (Members.member (.ok key) afterKey value after rest).readAll select finish state =
      rest.readAll select finish next := by
  rw [Members.readAll]
  change (located afterKey (select state key) >>= _) = _
  rw [selected]
  change (located after (reader value) >>= _) = _
  rw [read]
  rfl

namespace Shape

variable {shape : Shape α} {levels : Nat} {Clean : α → Prop}

theorem exists_copy {fields : List (Field α)} {copies : List (α → α → α)}
    (fits : List.Forall₂ (fun field copy => field.Stores levels Clean copy) fields copies) :
    ∀ field ∈ fields, ∃ copy, field.Stores levels Clean copy := by
  intro field own
  obtain ⟨index, inside, rfl⟩ := List.getElem_of_mem own
  obtain ⟨size, each⟩ := List.forall₂_iff_get.1 fits
  exact ⟨_, each index inside (size ▸ inside)⟩

/-- Reading members keeps a value clean if those that no field names do. -/
theorem yields_clean (each : ∀ field ∈ shape.fields, ∃ copy, field.Stores levels Clean copy)
    (others : ∀ {key : String} {draft next : Draft α} {reader : Source → Except Trouble (Draft α)} {source : Source},
      shape.fields.find? (·.name == key) = none → shape.select levels draft key = .ok reader → source.Canonical →
        reader source = .ok next → Clean draft.value → Clean next.value) :
    ∀ {members : Members} {draft final : Draft α},
    members.Canonical → members.readAll (shape.select levels) shape.complete draft = .ok final →
      Clean draft.value → Clean final.value
  | .closed stop, draft, final, _, read, clean => by
    have completed : shape.complete draft = .ok final := (located_eq_ok_iff stop ..).1 read
    unfold complete at completed
    split at completed
    · cases completed
    · cases completed; exact clean
  | .broken reading skipping, draft, final, _, read, _ => nomatch read
  | .member key afterKey source after rest, draft, final, canonical, read, clean => by
    rw [Members.readAll] at read
    obtain ⟨name, _, read⟩ := (bind_eq_ok_iff ..).1 read
    obtain ⟨reader, selected, read⟩ := (bind_eq_ok_iff ..).1 read
    obtain ⟨next, nextRead, read⟩ := (bind_eq_ok_iff ..).1 read
    have selected := (located_eq_ok_iff ..).1 selected
    have nextRead := (located_eq_ok_iff ..).1 nextRead
    refine yields_clean each others canonical.2 read ?_
    cases found : shape.fields.find? (·.name == name) with
    | none => exact others found selected canonical.1 nextRead clean
    | some field =>
      unfold select at selected
      rw [found] at selected
      simp only at selected
      split at selected
      · cases selected
      cases selected
      obtain ⟨b, fieldRead, same⟩ := (bind_eq_ok_iff ..).1 nextRead
      cases same
      obtain ⟨copy, fits⟩ := each field (List.mem_of_find?_eq_some found)
      exact fits.yields canonical.1 clean fieldRead

theorem complete_eq_ok {draft : Draft α}
    (given : ∀ field ∈ shape.fields, field.required = true → field.name ∈ draft.seen) :
    shape.complete draft = .ok draft := by
  have none : shape.fields.find? (fun field => field.required && !draft.seen.contains field.name) = none := by
    rw [List.find?_eq_none]
    intro field own missing
    rw [Bool.and_eq_true, Bool.not_eq_true', List.contains_eq_mem, decide_eq_false_iff_not] at missing
    exact missing.2 (given field own missing.1)
  unfold complete
  rw [none]

theorem select_known (distinct : (shape.fields.map (·.name)).Nodup) {field : Field α}
    (own : field ∈ shape.fields) {draft : Draft α} (unseen : field.name ∉ draft.seen) :
    shape.select levels draft field.name = .ok fun source => do
      let value ← field.read levels source draft.value
      return ⟨value, field.name :: draft.seen⟩ := by
  have found : shape.fields.find? (·.name == field.name) = some field := by
    cases found : shape.fields.find? (·.name == field.name) with
    | none => exact absurd (beq_self_eq_true field.name) (List.find?_eq_none.1 found field own)
    | some other =>
      have same : other.name = field.name := by simpa using List.find?_some found
      rw [List.inj_on_of_nodup_map distinct (List.mem_of_find?_eq_some found) own same]
  unfold select
  rw [found]
  exact if_neg unseen

/-- The fields that were written are copied; what follows them is still to be read. -/
theorem run_written (shapeDistinct : (shape.fields.map (·.name)).Nodup) {a : α} (clean : Clean a) {extra : Fields}
    {fields : List (Field α)} {copies : List (α → α → α)}
    (fits : List.Forall₂ (fun field copy => field.Stores levels Clean copy) fields copies) :
    (∀ field ∈ fields, field ∈ shape.fields) → (fields.map (·.name)).Nodup → ∀ {members : Members} (draft : Draft α),
      members.Denote (written fields a ++ extra) → (∀ field ∈ fields, field.name ∉ draft.seen) →
        ∃ (rest : Members) (seen : List String), rest.Denote extra ∧ (∀ name ∈ draft.seen, name ∈ seen) ∧
          (∀ field ∈ fields, field.write a ≠ none → field.name ∈ seen) ∧
          members.readAll (shape.select levels) shape.complete draft =
            rest.readAll (shape.select levels) shape.complete
              ⟨copies.foldl (fun b copy => copy a b) draft.value, seen⟩ := by
  induction fits with
  | nil => exact fun _ _ members draft shown _ =>
      ⟨members, draft.seen, shown, fun _ member => member, List.forall_mem_nil _, rfl⟩
  | cons fit _ ih =>
    rename_i field copy fields copies _
    intro inside distinct members draft shown unseen
    obtain ⟨fresh, distinct⟩ := List.nodup_cons.1 distinct
    obtain ⟨own, inside⟩ := List.forall_mem_cons.1 inside
    obtain ⟨new, unseen⟩ := List.forall_mem_cons.1 unseen
    cases wrote : field.write a with
    | none =>
      have skipped : written (field :: fields) a = written fields a := by
        rw [written, List.filterMap_cons, wrote]
        rfl
      rw [skipped] at shown
      obtain ⟨rest, seen, restShown, kept, given, run⟩ := ih inside distinct draft shown unseen
      refine ⟨rest, seen, restShown, kept, List.forall_mem_cons.2 ⟨fun some => absurd wrote some, given⟩, ?_⟩
      rw [run, List.foldl_cons, fit.absent wrote]
    | some value =>
      have taken : written (field :: fields) a = (field.name, value) :: written fields a := by
        rw [written, List.filterMap_cons, wrote]
        rfl
      rw [taken] at shown
      cases shown with
      | member _ afterKey after first later =>
        have unseen : ∀ other ∈ fields, other.name ∉ field.name :: draft.seen := fun other member there => by
          rcases List.mem_cons.1 there with same | old
          · exact fresh (List.mem_map.2 ⟨other, member, same⟩)
          · exact unseen other member old
        obtain ⟨rest, seen, restShown, kept, given, run⟩ :=
          ih inside distinct ⟨copy a draft.value, field.name :: draft.seen⟩ later unseen
        refine ⟨rest, seen, restShown, fun name old => kept name (List.mem_cons_of_mem _ old),
          List.forall_mem_cons.2 ⟨fun _ => kept field.name List.mem_cons_self, given⟩, ?_⟩
        refine (Members.readAll_member (select_known shapeDistinct own new) ?_ ..).trans run
        exact (bind_eq_ok_iff ..).2 ⟨_, fit.present clean wrote first, rfl⟩

end Shape

/-- The fields copy a value completely, apart from the members that no field names, and those stay apart. -/
structure Shape.Stores (shape : Shape α) (levels : Nat) (Clean : α → Prop) (get : α → Fields)
    (set : α → Fields → α) (copies : List (α → α → α)) : Prop where
  surplus : shape.surplus = .kept get set
  fields : List.Forall₂ (fun field copy => field.Stores levels Clean copy) shape.fields copies
  distinct : (shape.fields.map (·.name)).Nodup
  blank : Clean shape.blank
  takes : ∀ {a more}, Clean a → more.Spare levels (shape.fields.map (·.name)) → Clean (set a more)
  spare : ∀ {a}, Clean a → (get a).Spare levels (shape.fields.map (·.name))
  rebuild : ∀ a, get (copies.foldl (fun b copy => copy a b) shape.blank) = [] ∧
    set (copies.foldl (fun b copy => copy a b) shape.blank) (get a) = a
  rest : ∀ a more others, get (set a more) = more ∧ set a (get a) = a ∧ set (set a more) others = set a others

namespace Shape.Stores

variable {shape : Shape α} {levels : Nat} {Clean : α → Prop} {get : α → Fields} {set : α → Fields → α}
  {copies : List (α → α → α)}

theorem select_unknown (stores : shape.Stores levels Clean get set copies) {key : String}
    (foreign : key ∉ shape.fields.map (·.name)) (draft : Draft α) :
    shape.select levels draft key = .ok fun source => do
      let value ← source.value levels
      return { draft with value := set draft.value ((get draft.value).put key value) } := by
  have none : shape.fields.find? (·.name == key) = none := by
    rw [List.find?_eq_none]
    intro field own named
    exact foreign (List.mem_map.2 ⟨field, own, beq_iff_eq.1 named⟩)
  unfold select
  rw [none, stores.surplus]

/-- Members that no field names are added one by one. -/
theorem run_unknown (stores : shape.Stores levels Clean get set copies) : ∀ {members : Members} {extra : Fields}
    (draft : Draft α), members.Denote extra → (∀ member ∈ extra, member.1 ∉ shape.fields.map (·.name)) →
      ((get draft.value ++ extra).map Prod.fst).Nodup → (∀ member ∈ extra, member.2.Sound levels) →
        (∀ field ∈ shape.fields, field.required = true → field.name ∈ draft.seen) →
          members.readAll (shape.select levels) shape.complete draft =
            .ok ⟨set draft.value (get draft.value ++ extra), draft.seen⟩ := by
  intro members extra
  induction extra generalizing members with
  | nil =>
    intro draft shown _ _ _ complete
    cases shown
    rw [Members.readAll, complete_eq_ok complete, List.append_nil, (stores.rest draft.value [] []).2.1]
    rfl
  | cons member extra ih =>
    obtain ⟨key, value⟩ := member
    intro draft shown foreign distinct sound complete
    cases shown with | member _ afterKey after first later =>
    obtain ⟨unnamed, foreign⟩ := List.forall_mem_cons.1 foreign
    obtain ⟨valueSound, sound⟩ := List.forall_mem_cons.1 sound
    have fresh : key ∉ (get draft.value).map Prod.fst := Fields.absent_of_distinct distinct
    have read : (do
        let value ← Source.value levels _
        return { draft with value := set draft.value ((get draft.value).put key value) } : Except Trouble (Draft α)) =
          .ok ⟨set draft.value (get draft.value ++ [(key, value)]), draft.seen⟩ :=
      (bind_eq_ok_iff ..).2 ⟨value, first.value_eq valueSound, by rw [Fields.put_of_absent fresh]; rfl⟩
    rw [List.append_cons] at distinct ⊢
    have laws := stores.rest draft.value (get draft.value ++ [(key, value)])
    have distinct : ((get (set draft.value (get draft.value ++ [(key, value)])) ++ extra).map Prod.fst).Nodup := by
      rwa [(laws []).1]
    refine (Members.readAll_member (stores.select_unknown unnamed draft) read ..).trans ?_
    rw [ih ⟨set draft.value (get draft.value ++ [(key, value)]), draft.seen⟩ later foreign distinct sound complete]
    simp only [(laws []).1, (laws _).2.2]

theorem write_eq (stores : shape.Stores levels Clean get set copies) (a : α) :
    shape.codec.write a = .object (written shape.fields a ++ get a) := by
  change Json.object (written shape.fields a ++ shape.rest a) = _
  rw [Shape.rest, stores.surplus]

/-- A clean value is read from the object that it was written as. -/
theorem codec (stores : shape.Stores (levels - 1) Clean get set copies) (deep : 2 ≤ levels) :
    shape.codec.Stores levels Clean where
  yields {source a} canonical read := by
    change Shape.read shape levels source = _ at read
    rw [Shape.read.eq_def, stores.surplus] at read
    cases source with
    | object start members =>
      simp only at read
      rw [Source.enter_of_deep deep] at read
      obtain ⟨draft, inside, rfl⟩ := (map_eq_ok_iff ..).1 read
      refine yields_clean (exists_copy stores.fields) ?_ canonical inside stores.blank
      intro key draft next reader source foreign selected canonical read clean
      unfold select at selected
      rw [foreign, stores.surplus] at selected
      cases selected
      obtain ⟨value, valueRead, same⟩ := (bind_eq_ok_iff ..).1 read
      cases same
      refine stores.takes clean ((stores.spare clean).put (fun named => ?_) (canonical.sound valueRead))
      obtain ⟨field, own, same⟩ := List.mem_map.1 named
      exact List.find?_eq_none.1 foreign field own (beq_iff_eq.2 same)
    | _ => cases read
  returns {source a} clean shown := by
    have spare := stores.spare clean
    obtain ⟨empty, whole⟩ := stores.rebuild a
    change Shape.read shape levels source = _
    rw [stores.write_eq] at shown
    rw [Shape.read.eq_def, stores.surplus]
    cases shown with
    | object start shown =>
      simp only
      obtain ⟨rest, seen, restShown, -, given, run⟩ := run_written stores.distinct clean stores.fields (fun _ own => own)
        stores.distinct ⟨shape.blank, []⟩ shown fun _ _ => List.not_mem_nil
      have complete : ∀ field ∈ shape.fields, field.required = true → field.name ∈ seen := fun field own required => by
        obtain ⟨copy, fits⟩ := exists_copy stores.fields field own
        exact given field own (fits.required required a)
      have ended := stores.run_unknown ⟨copies.foldl (fun b copy => copy a b) shape.blank, seen⟩ restShown spare.foreign
        (by rw [empty]; exact spare.distinct) spare.sound complete
      rw [Source.enter_of_deep deep]
      refine (map_eq_ok_iff ..).2 ⟨_, run.trans ended, ?_⟩
      rw [empty]
      exact whole
  sound {a} clean := by
    have spare := stores.spare clean
    rw [stores.write_eq]
    refine Json.Sound.object_of_deep deep ?_ fun member there => ?_
    · rw [List.map_append]
      refine List.nodup_append.2 ⟨(keys_written_sublist ..).nodup stores.distinct, spare.distinct, ?_⟩
      rintro key inWritten _ inRest rfl
      obtain ⟨member, there, rfl⟩ := List.mem_map.1 inRest
      exact spare.foreign member there ((keys_written_sublist ..).mem inWritten)
    · rcases List.mem_append.1 there with named | foreign
      · obtain ⟨field, own, -, wrote⟩ := mem_written named
        obtain ⟨copy, fits⟩ := exists_copy stores.fields field own
        exact fits.sound clean wrote
      · exact spare.sound member foreign

end Shape.Stores

/-! ### Shapes that keep nothing else -/

/-- The fields copy a value completely, and members that no field names are passed over. -/
structure Shape.Copies (shape : Shape α) (levels : Nat) (Clean : α → Prop) (copies : List (α → α → α)) : Prop where
  surplus : shape.surplus = .ignored
  fields : List.Forall₂ (fun field copy => field.Stores levels Clean copy) shape.fields copies
  distinct : (shape.fields.map (·.name)).Nodup
  blank : Clean shape.blank
  rebuild : ∀ a, copies.foldl (fun b copy => copy a b) shape.blank = a

namespace Shape

variable {shape : Shape α} {levels : Nat} {Clean : α → Prop} {copies : List (α → α → α)}

/-- A value that is read from an array of its fields is clean as well. -/
theorem yields_items {wanted : String} {fields : List (Field α)} :
    (∀ field ∈ fields, ∃ copy, field.Stores levels Clean copy) → ∀ {items : Items} {index : Nat} {value final : α},
      items.Canonical → readItems wanted levels fields index value items = .ok final → Clean value → Clean final := by
  induction fields with
  | nil =>
    intro _ items index value final _ read clean
    obtain ⟨_, _, same⟩ := (bind_eq_ok_iff ..).1 read
    cases same
    exact clean
  | cons field fields ih =>
    intro each items index value final canonical read clean
    obtain ⟨⟨copy, fits⟩, each⟩ := List.forall_mem_cons.1 each
    cases items with
    | closed stop =>
      rw [readItems] at read
      split at read
      · cases read
      · exact ih each canonical read clean
    | broken reading skipping ending => cases read
    | item surplus source after rest =>
      obtain ⟨next, nextRead, later⟩ := (bind_eq_ok_iff ..).1 read
      exact ih each canonical.2 later (fits.yields canonical.1 clean ((located_eq_ok_iff ..).1 nextRead))

/-- A clean value is read from the object that it was written as. -/
theorem Copies.codec (fits : shape.Copies (levels - 1) Clean copies) (deep : 2 ≤ levels) :
    shape.codec.Stores levels Clean where
  yields {source a} canonical read := by
    change Shape.read shape levels source = _ at read
    rw [Shape.read.eq_def, fits.surplus] at read
    cases source with
    | object start members =>
      simp only at read
      rw [Source.enter_of_deep deep] at read
      obtain ⟨draft, inside, rfl⟩ := (map_eq_ok_iff ..).1 read
      refine yields_clean (exists_copy fits.fields) ?_ canonical inside fits.blank
      intro key draft next reader source foreign selected _ read clean
      unfold select at selected
      rw [foreign, fits.surplus] at selected
      cases selected
      obtain ⟨_, _, same⟩ := (bind_eq_ok_iff ..).1 read
      cases same
      exact clean
    | array start items =>
      simp only at read
      rw [Source.enter_of_deep deep] at read
      exact yields_items (exists_copy fits.fields) canonical read fits.blank
    | _ => cases read
  returns {source a} clean shown := by
    change Shape.read shape levels source = _
    have whole : shape.codec.write a = .object (written shape.fields a ++ []) := by
      change Json.object (written shape.fields a ++ shape.rest a) = _
      rw [Shape.rest, fits.surplus]
    rw [whole] at shown
    rw [Shape.read.eq_def, fits.surplus]
    cases shown with
    | object start shown =>
      simp only
      obtain ⟨rest, seen, restShown, -, given, run⟩ := run_written fits.distinct clean fits.fields (fun _ own => own)
        fits.distinct ⟨shape.blank, []⟩ shown fun _ _ => List.not_mem_nil
      have complete : ∀ field ∈ shape.fields, field.required = true → field.name ∈ seen := fun field own required => by
        obtain ⟨copy, stores⟩ := exists_copy fits.fields field own
        exact given field own (stores.required required a)
      cases restShown
      rw [Source.enter_of_deep deep, run, fits.rebuild, Members.readAll, complete_eq_ok complete]
      rfl
  sound {a} clean := by
    change (Json.object (written shape.fields a ++ shape.rest a)).Sound levels
    rw [Shape.rest, fits.surplus, List.append_nil]
    refine Json.Sound.object_of_deep deep ((keys_written_sublist ..).nodup fits.distinct) fun member there => ?_
    obtain ⟨field, own, -, wrote⟩ := mem_written there
    obtain ⟨copy, stores⟩ := exists_copy fits.fields field own
    exact stores.sound clean wrote

end Shape
end Patchbay
