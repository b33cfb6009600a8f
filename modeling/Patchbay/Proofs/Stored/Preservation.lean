import Mathlib.Data.List.Forall2
import Patchbay.Group.Config
import Patchbay.Proofs.Stored.Values

/-!
What is kept of a value that is read and written again. A form says which members an object may have and which of
them may be left out; `Form.Preserved` compares two values along it. Most types are exact, which is more: a value is
written just as it was read.
-/
set_option autoImplicit false

namespace Patchbay

/-! ### Values at any depth -/

theorem Json.Sound.mono {levels more : Nat} {value : Json} (sound : value.Sound levels) (le : levels ≤ more) :
    value.Sound more := by
  induction sound generalizing more with
  | null => exact .null more
  | bool levels flag => exact .bool more flag
  | number levels number canonical => exact .number more number canonical
  | text levels text => exact .text more text
  | array levels items sound ih =>
    obtain ⟨spare, rfl⟩ := Nat.exists_eq_add_of_le' le
    exact .array (spare + levels) items fun item member => ih item member (by omega)
  | object levels members distinct sound ih =>
    obtain ⟨spare, rfl⟩ := Nat.exists_eq_add_of_le' le
    exact .object (spare + levels) members distinct fun member there => ih member there (by omega)

/-- Finitely many values have a depth that suffices for them all. -/
theorem Json.common_depth (values : List Json) (wellFormed : ∀ value ∈ values, value.WellFormed) :
    ∃ levels, ∀ value ∈ values, value.Sound levels := by
  induction values with
  | nil => exact ⟨0, List.forall_mem_nil _⟩
  | cons head rest ih =>
    obtain ⟨own, sound⟩ := wellFormed head List.mem_cons_self
    obtain ⟨others, soundRest⟩ := ih fun value member => wellFormed value (List.mem_cons_of_mem _ member)
    refine ⟨max own others, fun value member => ?_⟩
    rcases List.mem_cons.1 member with rfl | later
    · exact sound.mono (Nat.le_max_left ..)
    · exact (soundRest value later).mono (Nat.le_max_right ..)

theorem Json.wellFormed_array {items : List Json} (wellFormed : ∀ item ∈ items, item.WellFormed) :
    (Json.array items).WellFormed := by
  obtain ⟨levels, sound⟩ := common_depth items wellFormed
  exact ⟨levels + 2, .array levels items fun item member => (sound item member).mono (Nat.le_succ levels)⟩

theorem Json.wellFormed_object {members : Fields} (distinct : (members.map Prod.fst).Nodup)
    (wellFormed : ∀ member ∈ members, member.2.WellFormed) : (Json.object members).WellFormed := by
  obtain ⟨levels, sound⟩ := common_depth (members.map Prod.snd) fun value there => by
    obtain ⟨member, own, rfl⟩ := List.mem_map.1 there
    exact wellFormed member own
  exact ⟨levels + 2, .object levels members distinct fun member there =>
    (sound _ (List.mem_map_of_mem there)).mono (Nat.le_succ levels)⟩

/-! ### Forms -/

/-- Whether a member of an object has to be there, and what it counts as if it is not. -/
inductive Presence where
  | needed
  | defaulted (value : Json)
  | optional
  | unlessEmpty

/-- How a value is built: kept as it is, or from parts that have forms of their own. Members of an object that are
not named are kept as they are. -/
inductive Form where
  | any
  | list (item : Form)
  | table (entry : Form)
  | record (presence : String → Option Presence) (form : String → Form)

/-- A member that an object of some form may have. -/
structure MemberForm where
  name : String
  presence : Presence
  form : Form

/-- The form of an object, member by member. -/
def Form.object (members : List MemberForm) : Form :=
  .record (fun key => (members.find? (·.name == key)).map (·.presence))
    fun key => ((members.find? (·.name == key)).map (·.form)).getD .any

/-- A member of this value may be left out. -/
def Presence.MayDrop : Presence → Json → Prop
  | .optional, value => value = .null
  | .unlessEmpty, value => value = .object []
  | _, _ => False

/-- Nothing of the first value is lost in the second one: members keep their places and their values, lists keep their
length and their items. What is left out is null or empty, and what is added is a default. -/
def Form.Preserved : Form → Json → Json → Prop
  | .any, before, after => after = before
  | .list item, before, after => ∃ values others, before = .array values ∧ after = .array others ∧
      others.length = values.length ∧
        ∀ (index : Nat) (value other : Json), values[index]? = some value → others[index]? = some other →
          item.Preserved value other
  | .table entry, before, after => ∃ fields others, before = .object fields ∧ after = .object others ∧
      ∀ key, match Fields.get? key fields, Fields.get? key others with
        | some value, some other => entry.Preserved value other
        | none, none => True
        | _, _ => False
  | .record presence form, before, after => ∃ fields others, before = .object fields ∧ after = .object others ∧
      ∀ key, match Fields.get? key fields, Fields.get? key others with
        | some value, some other => (form key).Preserved value other
        | some value, none => ∃ own, presence key = some own ∧ own.MayDrop value
        | none, some other => presence key = some (.defaulted other)
        | none, none => True

/-- Values that are read are preserved when they are written again. -/
def Codec.Keeps {α : Type} (codec : Codec α) (form : Form) : Prop :=
  ∀ {depth levels : Nat} {source : Source} {value : Json} {a : α}, value.Sound depth → source.Denotes value →
    codec.read levels source = .ok a → form.Preserved value (codec.write a) ∧ (codec.write a).WellFormed

/-- Values that are read are written as they were. -/
def Codec.Exact {α : Type} (codec : Codec α) : Prop :=
  ∀ {depth levels : Nat} {source : Source} {value : Json} {a : α}, value.Sound depth → source.Denotes value →
    codec.read levels source = .ok a → codec.write a = value

/-- Reading items reads each of them. -/
theorem Items.Denote.readAll_eq_ok {α : Type} {read : Source → Except Trouble α} : ∀ {items : Items}
    {values : List Json} {found : List α}, items.Denote values → items.readAll read = .ok found →
      List.Forall₂ (fun value a => ∃ source : Source, source.Denotes value ∧ read source = .ok a) values found
  | _, _, _, .closed stop, all => by cases all; exact .nil
  | _, _, _, .item surplus after first later, all => by
    rw [Items.readAll] at all
    obtain ⟨head, headRead, all⟩ := (bind_eq_ok_iff ..).1 all
    obtain ⟨tail, tailRead, same⟩ := (bind_eq_ok_iff ..).1 all
    cases same
    exact .cons ⟨_, first, (located_eq_ok_iff ..).1 headRead⟩ (later.readAll_eq_ok tailRead)

theorem Source.Denotes.list_read {α : Type} {codec : Codec α} {levels : Nat} {source : Source} {value : Json}
    {found : List α} (shown : source.Denotes value) (read : (Codec.list codec).read levels source = .ok found) :
    ∃ values rest, value = .array values ∧ List.Forall₂ (fun value a => ∃ source : Source, source.Denotes value ∧
      codec.read (rest + 1) source = .ok a) values found := by
  cases shown with
  | array start shown =>
    rename_i items values
    obtain ⟨rest, -, inside⟩ :=
      (enter_eq_ok_iff levels start (fun levels => items.readAll (codec.read levels)) found).1 read
    exact ⟨values, rest, rfl, shown.readAll_eq_ok inside⟩
  | _ => cases read

namespace Codec

variable {α β : Type} {codec : Codec α}

theorem Exact.keeps (exact : codec.Exact) : codec.Keeps .any := by
  intro depth levels source value a sound shown read
  have same := exact sound shown read
  exact ⟨same, same ▸ ⟨depth, sound⟩⟩

/-! ### Values that are written as they were read -/

theorem exact_bool : Codec.bool.Exact := by
  intro depth levels source value a _ shown read
  cases shown with
  | bool flag stop => cases read; rfl
  | _ => cases read

theorem exact_string : Codec.string.Exact := by
  intro depth levels source value a _ shown read
  cases shown with
  | text text stop => cases read; rfl
  | _ => cases read

theorem exact_natural (largest : Nat) (wanted : String) : (Codec.natural largest wanted).Exact := by
  intro depth levels source value a _ shown read
  cases shown with
  | number number stop =>
    cases number with
    | natural word =>
      change (if _ then _ else _) = _ at read
      split at read
      · cases read; rfl
      · cases read
    | negative word => cases read
    | real word => cases read
  | _ => cases read

theorem ofInt64_toInt64_of_lt {word : UInt64} (small : word.toNat < 1 <<< 63) :
    Number.ofInt64 word.toInt64 = .natural word := by
  have natural : ¬ word.toInt64 < 0 := by
    rw [Int64.lt_iff_toInt_lt, Int64.toInt_zero, Int64.toInt]
    simp only [UInt64.toBitVec_toInt64]
    rw [BitVec.toInt_eq_toNat_of_lt (by rw [UInt64.toNat_toBitVec]; omega)]
    omega
  rw [Number.ofInt64, if_neg natural, UInt64.toUInt64_toInt64]

theorem ofInt64_of_int64? {number : Number} {value : Int64} (canonical : number.Canonical)
    (read : number.int64? = some value) : Number.ofInt64 value = number := by
  cases number with
  | natural word =>
    rw [Number.int64?] at read
    split at read
    · next small => cases read; exact ofInt64_toInt64_of_lt small
    · cases read
  | negative word =>
    cases read
    exact if_pos canonical
  | real word => cases read

theorem exact_int64 : Codec.int64.Exact := by
  intro depth levels source value a sound shown read
  cases shown with
  | number number stop =>
    cases sound with
    | number _ _ canonical =>
      refine congrArg Json.number (ofInt64_of_int64? canonical ?_)
      cases number with
      | natural word =>
        dsimp only [Codec.int64] at read
        split at read
        · next found => cases read; exact found
        · cases read
      | negative word => cases read; rfl
      | real word => cases read
  | _ => cases read

theorem exact_json : Codec.json.Exact := fun sound shown read => shown.eq_of_value sound read

theorem Exact.nullable (exact : codec.Exact) : codec.nullable.Exact := by
  intro depth levels source value a sound shown read
  have present (some? : some <$> codec.read levels source = .ok a) : codec.nullable.write a = value := by
    obtain ⟨b, inner, rfl⟩ := (map_eq_ok_iff ..).1 some?
    exact exact sound shown inner
  cases shown with
  | null stop => cases read; rfl
  | _ => exact present read

theorem Exact.list (exact : codec.Exact) : (Codec.list codec).Exact := by
  intro depth levels source value found sound shown read
  obtain ⟨values, rest, rfl, items⟩ := shown.list_read read
  cases sound with
  | array depth _ sound =>
    refine congrArg Json.array ?_
    clear shown read
    induction items with
    | nil => rfl
    | cons item _ ih =>
      obtain ⟨source, shown, read⟩ := item
      rw [List.map_cons, exact (sound _ List.mem_cons_self) shown read,
        ih fun value member => sound value (List.mem_cons_of_mem _ member)]

theorem Exact.refine {codec : Codec β} (exact : codec.Exact) {accept : β → Except String α} {give : α → β}
    (back : ∀ {depth : Nat} {b : β} {a : α}, (codec.write b).Sound depth → accept b = .ok a → give a = b) :
    (codec.refine accept give).Exact := by
  intro depth levels source value a sound shown read
  obtain ⟨b, inner, taken⟩ := (bind_eq_ok_iff ..).1 read
  have same := exact sound shown inner
  have accepted : accept b = .ok a := by
    cases outcome : accept b with
    | error reason => rw [outcome] at taken; cases taken
    | ok other => rw [outcome] at taken; cases taken; rfl
  exact (congrArg codec.write (back (same ▸ sound) accepted)).trans same

/-! ### Lists -/

theorem Keeps.list {form : Form} (keeps : codec.Keeps form) : (Codec.list codec).Keeps (.list form) := by
  intro depth levels source value found sound shown read
  obtain ⟨values, rest, rfl, items⟩ := shown.list_read read
  obtain ⟨size, items⟩ := List.forall₂_iff_get.1 items
  cases sound with
  | array depth _ sound =>
    have kept (index : Nat) (inValues : index < values.length) (inFound : index < found.length) :
        form.Preserved values[index] (codec.write found[index]) ∧ (codec.write found[index]).WellFormed := by
      obtain ⟨source, shown, read⟩ := items index inValues inFound
      exact keeps (sound _ (List.getElem_mem inValues)) shown read
    refine ⟨⟨values, found.map codec.write, rfl, rfl, by rw [List.length_map, size], ?_⟩, ?_⟩
    · intro index value other atValue atOther
      rw [List.getElem?_map] at atOther
      obtain ⟨a, atFound, rfl⟩ := Option.map_eq_some_iff.1 atOther
      obtain ⟨inValues, rfl⟩ := List.getElem?_eq_some_iff.1 atValue
      obtain ⟨inFound, rfl⟩ := List.getElem?_eq_some_iff.1 atFound
      exact (kept index inValues inFound).1
    · refine Json.wellFormed_array fun item member => ?_
      obtain ⟨a, there, rfl⟩ := List.mem_map.1 member
      obtain ⟨index, inFound, rfl⟩ := List.getElem_of_mem there
      exact (kept index (size ▸ inFound) inFound).2

end Codec

/-! ### Ids, modes and links -/

theorem NodeId.toJson_of_ofJson? {depth : Nat} {value : Json} {id : NodeId} (sound : value.Sound depth)
    (read : ofJson? value = some id) : id.toJson = value := by
  cases value with
  | text name => cases read; rfl
  | number number =>
    cases sound with
    | number _ _ canonical =>
      obtain ⟨word, inner, rfl⟩ := Option.map_eq_some_iff.1 read
      exact congrArg Json.number (Codec.ofInt64_of_int64? canonical inner)
  | _ => cases read

theorem NodeId.codec_exact : NodeId.codec.Exact :=
  Codec.Exact.refine Codec.exact_json fun sound accepted => by
    refine toJson_of_ofJson? sound ?_
    split at accepted
    · next found => cases accepted; exact found
    · cases accepted

theorem Mode.code_of_ofCode? {code : Nat} {mode : Mode} (read : ofCode? code = some mode) : mode.code = code := by
  unfold ofCode? at read
  split at read <;> cases read <;> rfl

theorem Mode.codec_exact : Mode.codec.Exact :=
  Codec.Exact.refine (Codec.exact_natural 255 "u8") fun _ accepted => by
    split at accepted
    · next found =>
      cases accepted
      rw [code_of_ofCode? found, UInt64.ofNat_toNat]
    · cases accepted

/-- The next of a fixed number of items is written as it was read. -/
theorem Items.Denote.exact_next {α β : Type} {codec : Codec α} (exact : codec.Exact) {items : Items}
    {values : List Json} {levels depth index : Nat} {wanted : String} {later : α × Items → Except Trouble β} {b : β}
    (shown : items.Denote values) (sound : ∀ value ∈ values, value.Sound depth)
    (read : items.readNext (codec.read levels) index wanted >>= later = .ok b) :
    ∃ a rest others, values = codec.write a :: others ∧ rest.Denote others ∧ (∀ value ∈ others, value.Sound depth) ∧
      later (a, rest) = .ok b := by
  obtain ⟨⟨a, rest⟩, next, behind⟩ := (bind_eq_ok_iff ..).1 read
  cases shown with
  | closed stop => cases next
  | item surplus after first others =>
    obtain ⟨head, headRead, same⟩ := (bind_eq_ok_iff ..).1 next
    cases same
    obtain ⟨firstSound, othersSound⟩ := List.forall_mem_cons.1 sound
    rw [← exact firstSound first ((located_eq_ok_iff ..).1 headRead)]
    exact ⟨a, rest, _, rfl, others, othersSound, behind⟩

theorem Items.Denote.finish_eq_ok {items : Items} {values : List Json} (shown : items.Denote values)
    (done : items.finish = .ok ()) : values = [] := by
  cases shown with
  | closed stop => rfl
  | item surplus after first later => cases done

theorem Link.codec_exact : Link.codec.Exact := by
  intro depth levels source value link sound shown read
  cases shown with
  | array start shown =>
    cases sound with
    | array depth values sound =>
      dsimp only [codec] at read
      obtain ⟨rest, rfl, inside⟩ := (enter_eq_ok_iff ..).1 read
      obtain ⟨id, items, values, rfl, shown, sound, inside⟩ :=
        shown.exact_next (Codec.exact_natural _ "u64") sound inside
      obtain ⟨origin, items, values, rfl, shown, sound, inside⟩ := shown.exact_next NodeId.codec_exact sound inside
      obtain ⟨originSlot, items, values, rfl, shown, sound, inside⟩ :=
        shown.exact_next (Codec.exact_natural _ "usize") sound inside
      obtain ⟨target, items, values, rfl, shown, sound, inside⟩ := shown.exact_next NodeId.codec_exact sound inside
      obtain ⟨targetSlot, items, values, rfl, shown, sound, inside⟩ :=
        shown.exact_next (Codec.exact_natural _ "usize") sound inside
      obtain ⟨type, items, values, rfl, shown, sound, inside⟩ := shown.exact_next Codec.exact_string sound inside
      obtain ⟨_, done, same⟩ := (bind_eq_ok_iff ..).1 inside
      cases same
      obtain rfl := shown.finish_eq_ok done
      rfl
  | _ => cases read

theorem Json.ofWord_of_word? {value : Json} {word : UInt64} (read : value.word? = some word) :
    Json.ofWord word = value := by
  cases value with
  | number number =>
    cases number with
    | natural own => cases read; rfl
    | _ => cases read
  | _ => cases read

namespace FlowLink

theorem ofWord_of_naturalField {field : String} {value : Json} {word : Word}
    (read : naturalField field value = .ok word) : Json.ofWord word = value := by
  unfold naturalField at read
  split at read
  · next found => cases read; exact Json.ofWord_of_word? found
  · cases read

theorem toJson_of_nodeField {field : String} {value : Json} {id : NodeId} {depth : Nat} (sound : value.Sound depth)
    (read : nodeField field value = .ok id) : id.toJson = value := by
  unfold nodeField at read
  split at read
  · next found => cases read; exact NodeId.toJson_of_ofJson? sound found
  · cases read

/-- A sequencing link has all the values that it was read from. -/
theorem toValues_of_ofValues {values : List Json} {link : FlowLink} {depth : Nat}
    (sound : ∀ value ∈ values, value.Sound depth) (read : ofValues values = .ok link) : link.toValues = values := by
  unfold ofValues at read
  split at read
  · next idValue originValue originSlotValue targetValue targetSlotValue tail =>
    split at read
    · cases read
    · simp only [List.forall_mem_cons] at sound
      obtain ⟨-, originSound, -, targetSound, -⟩ := sound
      obtain ⟨id, idRead, read⟩ := (bind_eq_ok_iff ..).1 read
      obtain ⟨origin, originRead, read⟩ := (bind_eq_ok_iff ..).1 read
      obtain ⟨originSlot, originSlotRead, read⟩ := (bind_eq_ok_iff ..).1 read
      obtain ⟨target, targetRead, read⟩ := (bind_eq_ok_iff ..).1 read
      obtain ⟨targetSlot, targetSlotRead, same⟩ := (bind_eq_ok_iff ..).1 read
      cases same
      rw [← ofWord_of_naturalField idRead, ← toJson_of_nodeField originSound originRead,
        ← ofWord_of_naturalField originSlotRead, ← toJson_of_nodeField targetSound targetRead,
        ← ofWord_of_naturalField targetSlotRead]
      rfl
  · cases read

theorem codec_exact : FlowLink.codec.Exact :=
  Codec.Exact.refine (Codec.Exact.list Codec.exact_json) fun sound accepted => by
    cases sound with
    | array depth values sound =>
      rw [show Codec.json.write = (fun value => value) from rfl, List.map_id'] at sound
      exact toValues_of_ofValues sound ((mapError_eq_ok_iff ..).1 accepted)

end FlowLink

namespace GroupLink

theorem ofWord_of_naturalField {field : String} {value : Json} {word : Word}
    (read : naturalField field value = .ok word) : Json.ofWord word = value := by
  unfold naturalField at read
  split at read
  · next found => cases read; exact Json.ofWord_of_word? found
  · cases read

/-- A link between members has all the values that it was read from. -/
theorem toValues_of_ofValues {values : List Json} {link : GroupLink} (read : ofValues values = .ok link) :
    link.toValues = values := by
  unfold ofValues at read
  split at read
  · next originValue originSlotValue targetValue targetSlotValue tail =>
    obtain ⟨origin, originRead, read⟩ := (bind_eq_ok_iff ..).1 read
    obtain ⟨originSlot, originSlotRead, read⟩ := (bind_eq_ok_iff ..).1 read
    obtain ⟨target, targetRead, read⟩ := (bind_eq_ok_iff ..).1 read
    obtain ⟨targetSlot, targetSlotRead, same⟩ := (bind_eq_ok_iff ..).1 read
    cases same
    rw [← ofWord_of_naturalField originSlotRead, ← ofWord_of_naturalField targetRead,
      ← ofWord_of_naturalField targetSlotRead]
    unfold originField at originRead
    split at originRead
    · cases originRead; rfl
    · obtain ⟨word, wordRead, rfl⟩ := (map_eq_ok_iff ..).1 originRead
      rw [← ofWord_of_naturalField wordRead]
      rfl
  · cases read

theorem codec_exact : GroupLink.codec.Exact :=
  Codec.Exact.refine (Codec.Exact.list Codec.exact_json) fun _ accepted =>
    toValues_of_ofValues ((mapError_eq_ok_iff ..).1 accepted)

end GroupLink
end Patchbay
