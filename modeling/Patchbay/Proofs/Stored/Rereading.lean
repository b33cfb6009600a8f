import Mathlib.Data.List.Forall2
import Patchbay.Document
import Patchbay.Proofs.Stored.Objects

/-!
What is read back from what was written. Of each type some values are clean: those that reading yields, and that come
back unchanged once they have been written, see `Codec.Stores`. What makes a value unclean are members that no field
names and that have the name of a field all the same.
-/
set_option autoImplicit false

namespace Patchbay

variable {α β : Type}

theorem Source.enter_of_deep {levels : Nat} (deep : 2 ≤ levels) (start : Nat) (body : Nat → Except Trouble α) :
    Source.enter levels start body = body (levels - 1) := by
  obtain ⟨rest, rfl⟩ := Nat.exists_eq_add_of_le' deep
  rfl

theorem Json.Sound.array_of_deep {levels : Nat} (deep : 2 ≤ levels) {items : List Json}
    (sound : ∀ item ∈ items, item.Sound (levels - 1)) : (Json.array items).Sound levels := by
  obtain ⟨rest, rfl⟩ := Nat.exists_eq_add_of_le' deep
  exact .array rest items sound

theorem Json.Sound.object_of_deep {levels : Nat} (deep : 2 ≤ levels) {members : Fields}
    (distinct : (members.map Prod.fst).Nodup) (sound : ∀ member ∈ members, member.2.Sound (levels - 1)) :
    (Json.object members).Sound levels := by
  obtain ⟨rest, rfl⟩ := Nat.exists_eq_add_of_le' deep
  exact .object rest members distinct sound

theorem Number.int64?_ofInt64 (value : Int64) : (Number.ofInt64 value).int64? = some value := by
  unfold ofInt64
  split
  · rfl
  · next natural =>
    rw [Int64.lt_iff_toInt_lt, Int64.toInt_zero, Int64.toInt, BitVec.toInt_eq_toNat_cond] at natural
    have small : value.toUInt64.toNat < 1 <<< 63 := by
      rw [← Int64.toNat_toBitVec]
      split at natural
      · omega
      · have := value.toBitVec.isLt
        omega
    rw [int64?, if_pos small, Int64.toInt64_toUInt64]

theorem NodeId.ofJson?_toJson (id : NodeId) : ofJson? id.toJson = some id := by
  cases id with
  | name value => rfl
  | number value => exact congrArg (Option.map NodeId.number) (Number.int64?_ofInt64 value)

/-- Reading yields clean values only, and a clean value is read from what it was written as. -/
structure Codec.Stores (codec : Codec α) (levels : Nat) (Clean : α → Prop) : Prop where
  yields : ∀ {source : Source} {a : α}, source.Canonical → codec.read levels source = .ok a → Clean a
  returns : ∀ {source : Source} {a : α}, Clean a → source.Denotes (codec.write a) → codec.read levels source = .ok a
  sound : ∀ {a : α}, Clean a → (codec.write a).Sound levels

namespace Codec

variable {codec : Codec α} {levels : Nat} {Clean : α → Prop}

theorem stores_bool : Codec.bool.Stores levels fun _ => True where
  yields _ _ := trivial
  returns {source a} _ shown := by cases shown; rfl
  sound {a} _ := .bool levels a

theorem stores_string : Codec.string.Stores levels fun _ => True where
  yields _ _ := trivial
  returns {source a} _ shown := by cases shown; rfl
  sound {a} _ := .text levels a

theorem stores_natural (largest : Nat) (wanted : String) :
    (Codec.natural largest wanted).Stores levels fun word => word.toNat ≤ largest where
  yields {source a} _ read := by
    cases source with
    | number number stop =>
      cases number with
      | natural word =>
        change (if _ then _ else _) = _ at read
        split at read
        · next small => cases read; exact small
        · cases read
      | negative word => cases read
      | real word => cases read
    | _ => cases read
  returns {source a} small shown := by cases shown; exact if_pos small
  sound {a} _ := Json.sound_ofWord levels a

theorem stores_word (wanted : String) : (Codec.natural (UInt64.size - 1) wanted).Stores levels fun _ => True where
  yields _ _ := trivial
  returns {_ a} _ := (stores_natural _ wanted).returns (Nat.le_pred_of_lt a.toNat_lt)
  sound {a} _ := Json.sound_ofWord levels a

theorem stores_int64 : Codec.int64.Stores levels fun _ => True where
  yields _ _ := trivial
  returns {source a} _ shown := by
    have found := Number.int64?_ofInt64 a
    change source.Denotes (.number (Number.ofInt64 a)) at shown
    generalize Number.ofInt64 a = number at found shown
    cases shown with
    | number _ stop =>
      cases number with
      | natural word =>
        dsimp only [Codec.int64]
        rw [found]
      | negative value => cases found; rfl
      | real value => cases found
  sound {a} _ := Json.sound_ofInt64 levels a

theorem stores_json : Codec.json.Stores levels (·.Sound levels) where
  yields canonical read := canonical.sound read
  returns sound shown := shown.value_eq sound
  sound sound := sound

theorem Stores.nullable (stores : codec.Stores levels Clean) (some? : ∀ {a}, Clean a → codec.write a ≠ .null) :
    codec.nullable.Stores levels fun a? => ∀ a ∈ a?, Clean a where
  yields {source a?} canonical read := by
    have present (read : some <$> codec.read levels source = .ok a?) : ∀ a ∈ a?, Clean a := by
      obtain ⟨a, inner, rfl⟩ := (map_eq_ok_iff ..).1 read
      intro b member
      obtain rfl := Option.some.inj member
      exact stores.yields canonical inner
    cases source with
    | null stop => cases read; exact fun _ member => nomatch member
    | _ => exact present read
  returns {source a?} clean shown := by
    cases a? with
    | none => cases shown; rfl
    | some a =>
      change source.Denotes (codec.write a) at shown
      have inner := stores.returns (clean a rfl) shown
      have present : some <$> codec.read levels source = .ok (some a) := (map_eq_ok_iff ..).2 ⟨a, inner, rfl⟩
      cases source with
      | null stop =>
        generalize written : codec.write a = value at shown
        cases shown
        exact absurd written (some? (clean a rfl))
      | _ => exact present
  sound {a?} clean := by
    cases a? with
    | none => exact .null levels
    | some a => exact stores.sound (clean a rfl)

theorem readAll_written {read : Source → Except Trouble α} {write : α → Json} : ∀ {items : Items} {values : List α},
    items.Denote (values.map write) →
      (∀ a ∈ values, ∀ source : Source, source.Denotes (write a) → read source = .ok a) →
      items.readAll read = .ok values
  | _, [], .closed stop, _ => rfl
  | _, a :: rest, .item surplus after first later, each => by
    rw [Items.readAll, each a List.mem_cons_self _ first,
      readAll_written later fun b member => each b (List.mem_cons_of_mem a member)]
    rfl

theorem readAll_canonical {read : Source → Except Trouble α} : ∀ {items : Items} {values : List α}, items.Canonical →
    items.readAll read = .ok values → ∀ a ∈ values, ∃ source : Source, source.Canonical ∧ read source = .ok a
  | .closed stop, values, _, all => by cases all; exact fun _ member => nomatch member
  | .broken reading skipping ending, values, _, all => nomatch all
  | .item surplus source after rest, values, canonical, all => by
    rw [Items.readAll] at all
    obtain ⟨first, firstRead, all⟩ := (bind_eq_ok_iff ..).1 all
    obtain ⟨others, othersRead, same⟩ := (bind_eq_ok_iff ..).1 all
    cases same
    exact List.forall_mem_cons.2 ⟨⟨source, canonical.1, (located_eq_ok_iff ..).1 firstRead⟩,
      readAll_canonical canonical.2 othersRead⟩

theorem Stores.list (stores : codec.Stores (levels - 1) Clean) (deep : 2 ≤ levels) :
    (Codec.list codec).Stores levels fun values => ∀ a ∈ values, Clean a where
  yields {source values} canonical read a member := by
    cases source with
    | array start items =>
      change Source.enter levels start (fun levels => items.readAll (codec.read levels)) = _ at read
      rw [Source.enter_of_deep deep] at read
      obtain ⟨item, canonical, itemRead⟩ := readAll_canonical canonical read a member
      exact stores.yields canonical itemRead
    | _ => cases read
  returns {source values} clean shown := by
    cases shown with
    | array start shown =>
      rename_i items
      change Source.enter levels start (fun levels => items.readAll (codec.read levels)) = _
      rw [Source.enter_of_deep deep]
      exact readAll_written shown fun a member source shown => stores.returns (clean a member) shown
  sound {values} clean := Json.Sound.array_of_deep deep fun item member => by
    obtain ⟨a, own, rfl⟩ := List.mem_map.1 member
    exact stores.sound (clean a own)

theorem Stores.refine {β : Type} {codec : Codec β} {Clean : β → Prop} (stores : codec.Stores levels Clean)
    {accept : β → Except String α} {give : α → β} {CleanOf : α → Prop}
    (accepts : ∀ {a}, CleanOf a → Clean (give a) ∧ accept (give a) = .ok a)
    (accepted : ∀ {b a}, Clean b → accept b = .ok a → CleanOf a) :
    (codec.refine accept give).Stores levels CleanOf where
  yields {source a} canonical read := by
    obtain ⟨b, inner, taken⟩ := (bind_eq_ok_iff ..).1 read
    exact accepted (stores.yields canonical inner) ((mapError_eq_ok_iff ..).1 taken)
  returns {source a} clean shown := by
    obtain ⟨own, taken⟩ := accepts clean
    exact (bind_eq_ok_iff ..).2 ⟨give a, stores.returns own shown, (mapError_eq_ok_iff ..).2 taken⟩
  sound {a} clean := stores.sound (accepts clean).1

theorem stores_nodeId : NodeId.codec.Stores levels fun _ => True :=
  stores_json.refine
    (fun {id} _ => by
      refine ⟨?_, by rw [NodeId.ofJson?_toJson]⟩
      cases id with
      | name value => exact .text levels value
      | number value => exact Json.sound_ofInt64 levels value)
    fun _ _ => trivial

theorem stores_mode : Mode.codec.Stores levels fun _ => True :=
  (stores_natural 255 "u8").refine (fun {mode} _ => by cases mode <;> exact ⟨by decide, rfl⟩) fun _ _ => trivial

theorem Stores.readNext (stores : codec.Stores levels Clean) {a : α} (clean : Clean a) {source : Source}
    (shown : source.Denotes (codec.write a)) (surplus : Trouble) (after : Nat) (rest : Items) (index : Nat)
    (wanted : String) : (Items.item surplus source after rest).readNext (codec.read levels) index wanted =
      .ok (a, rest) := by
  rw [Items.readNext, stores.returns clean shown]
  rfl

theorem stores_link (deep : 2 ≤ levels) : Link.codec.Stores levels fun _ => True where
  yields _ _ := trivial
  returns {source link} _ shown := by
    cases shown with
    | array start shown =>
      cases shown with | item surplus after id shown =>
      cases shown with | item surplus after origin shown =>
      cases shown with | item surplus after originSlot shown =>
      cases shown with | item surplus after target shown =>
      cases shown with | item surplus after targetSlot shown =>
      cases shown with | item surplus after type shown =>
      cases shown
      dsimp only [Link.codec]
      rw [Source.enter_of_deep deep]
      refine (bind_eq_ok_iff ..).2 ⟨_, (stores_word "u64").readNext trivial id .., ?_⟩
      refine (bind_eq_ok_iff ..).2 ⟨_, stores_nodeId.readNext trivial origin .., ?_⟩
      refine (bind_eq_ok_iff ..).2 ⟨_, (stores_word "usize").readNext trivial originSlot .., ?_⟩
      refine (bind_eq_ok_iff ..).2 ⟨_, stores_nodeId.readNext trivial target .., ?_⟩
      refine (bind_eq_ok_iff ..).2 ⟨_, (stores_word "usize").readNext trivial targetSlot .., ?_⟩
      exact (bind_eq_ok_iff ..).2 ⟨_, stores_string.readNext trivial type .., rfl⟩
  sound {link} _ := by
    refine Json.Sound.array_of_deep deep ?_
    simp only [List.forall_mem_cons]
    exact ⟨Json.sound_ofWord .., stores_nodeId.sound trivial, Json.sound_ofWord .., stores_nodeId.sound trivial,
      Json.sound_ofWord .., .text _ _, List.forall_mem_nil _⟩

end Codec

/-! ### Links with a tail -/

namespace FlowLink

/-- At most one value stands behind the target slot. -/
structure Clean (levels : Nat) (link : FlowLink) : Prop where
  short : link.tail.length ≤ 1
  sound : ∀ value ∈ link.tail, value.Sound (levels - 1)

variable {levels : Nat}

theorem nodeField_toJson (field : String) (id : NodeId) : nodeField field id.toJson = .ok id := by
  rw [nodeField, NodeId.ofJson?_toJson]

theorem ofValues_toValues {link : FlowLink} (short : link.tail.length ≤ 1) : ofValues link.toValues = .ok link := by
  change (if 1 < link.tail.length then _ else _) = _
  rw [if_neg (Nat.not_lt.2 short), nodeField_toJson, nodeField_toJson]
  rfl

theorem stores_codec (deep : 2 ≤ levels) : FlowLink.codec.Stores levels (Clean levels) :=
  (Codec.stores_json.list deep).refine
    (fun {link} clean => by
      refine ⟨fun value member => ?_, by rw [ofValues_toValues clean.short]; rfl⟩
      rcases List.mem_append.1 member with fixed | tail
      · simp only [List.mem_cons, List.not_mem_nil, or_false] at fixed
        rcases fixed with rfl | rfl | rfl | rfl | rfl
        · exact Json.sound_ofWord ..
        · exact Codec.stores_nodeId.sound trivial
        · exact Json.sound_ofWord ..
        · exact Codec.stores_nodeId.sound trivial
        · exact Json.sound_ofWord ..
      · exact clean.sound value tail)
    fun {values link} sound accepted => by
      have read := (mapError_eq_ok_iff ..).1 accepted
      have whole := toValues_of_ofValues sound read
      refine ⟨Nat.not_lt.1 fun long => ?_, fun value member => sound value (whole ▸ List.mem_append_right _ member)⟩
      rw [← whole] at read
      change (if 1 < link.tail.length then _ else _) = _ at read
      rw [if_pos long] at read
      cases read

end FlowLink

namespace GroupLink

variable {levels : Nat}

theorem ofValues_toValues (link : GroupLink) : ofValues link.toValues = .ok link := by
  obtain ⟨origin, originSlot, target, targetSlot, tail⟩ := link
  cases origin <;> rfl

theorem stores_codec (deep : 2 ≤ levels) :
    GroupLink.codec.Stores levels fun link => ∀ value ∈ link.tail, value.Sound (levels - 1) :=
  (Codec.stores_json.list deep).refine
    (fun {link} clean => by
      refine ⟨fun value member => ?_, by rw [ofValues_toValues]; rfl⟩
      rcases List.mem_append.1 member with fixed | tail
      · simp only [List.mem_cons, List.not_mem_nil, or_false] at fixed
        rcases fixed with rfl | rfl | rfl | rfl
        · cases link.origin with
          | none => exact .null _
          | some origin => exact Json.sound_ofWord ..
        · exact Json.sound_ofWord ..
        · exact Json.sound_ofWord ..
        · exact Json.sound_ofWord ..
      · exact clean value tail)
    fun {values link} sound accepted value member =>
      sound value (toValues_of_ofValues ((mapError_eq_ok_iff ..).1 accepted) ▸ List.mem_append_right _ member)

end GroupLink

/-! ### Tables -/

namespace Codec

variable {codec : Codec α} {levels : Nat} {Clean : α → Prop}

theorem readTable_canonical : ∀ {members : Members} {table final : Table α}, members.Canonical →
    members.readAll (fun table key => .ok fun value => table.insert key <$> codec.read levels value) .ok table =
      .ok final → (∀ {source : Source} {a : α}, source.Canonical → codec.read levels source = .ok a → Clean a) →
        (∀ entry ∈ table.entries, Clean entry.2) → ∀ entry ∈ final.entries, Clean entry.2
  | .closed stop, table, final, _, read, _, clean => by
    obtain rfl : table = final := Except.ok.inj ((located_eq_ok_iff stop ..).1 read)
    exact clean
  | .broken reading skipping, table, final, _, read, _, _ => nomatch read
  | .member key afterKey source after rest, table, final, canonical, read, yields, clean => by
    rw [Members.readAll] at read
    obtain ⟨name, _, read⟩ := (bind_eq_ok_iff ..).1 read
    obtain ⟨reader, selected, read⟩ := (bind_eq_ok_iff ..).1 read
    cases selected
    obtain ⟨next, nextRead, read⟩ := (bind_eq_ok_iff ..).1 read
    obtain ⟨a, valueRead, rfl⟩ := (map_eq_ok_iff ..).1 ((located_eq_ok_iff ..).1 nextRead)
    refine readTable_canonical canonical.2 read yields fun entry member => ?_
    rcases Table.mem_place member with rfl | old
    · exact yields canonical.1 valueRead
    · exact clean entry old

theorem readTable_written : ∀ {members : Members} (entries : List (String × α)) (table : Table α),
    members.Denote (entries.map fun e => (e.1, codec.write e.2)) →
      (∀ entry ∈ entries, ∀ source : Source, source.Denotes (codec.write entry.2) →
        codec.read levels source = .ok entry.2) →
      members.readAll (fun table key => .ok fun value => table.insert key <$> codec.read levels value) .ok table =
        .ok (table.insertAll entries)
  | _, [], table, .closed stop, _ => rfl
  | _, entry :: entries, table, .member _ afterKey after first later, each => by
    have next := readTable_written entries (table.insert entry.1 entry.2) later
      fun other member => each other (List.mem_cons_of_mem _ member)
    rw [Members.readAll]
    refine (bind_eq_ok_iff ..).2 ⟨_, rfl, (bind_eq_ok_iff ..).2 ⟨_, rfl, (bind_eq_ok_iff ..).2 ⟨_, ?_, next⟩⟩⟩
    rw [each entry List.mem_cons_self _ first]
    rfl

theorem get?_insertAll_sorted (key : String) : ∀ (entries : List (String × α)) (table : Table α),
    entries.Pairwise (fun a b => a.1 < b.1) →
      (table.insertAll entries).get? key = (Table.find key entries).or (table.get? key)
  | [], table, _ => rfl
  | entry :: entries, table, sorted => by
    obtain ⟨above, rest⟩ := List.pairwise_cons.1 sorted
    refine (get?_insertAll_sorted key entries (table.insert entry.1 entry.2) rest).trans ?_
    rw [Table.get?_insert, Table.find]
    split
    · next same => rw [same, Table.find_eq_none above]; rfl
    · rfl

/-- A table is made of its entries. -/
theorem insertAll_entries (table : Table α) : Table.empty.insertAll table.entries = table :=
  Table.ext_get? fun key => (get?_insertAll_sorted key table.entries .empty table.sorted).trans (Option.or_none)

theorem Stores.table (stores : codec.Stores (levels - 1) Clean) (deep : 2 ≤ levels) :
    codec.table.Stores levels fun table => ∀ entry ∈ table.entries, Clean entry.2 where
  yields {source table} canonical read := by
    cases source with
    | object start members =>
      dsimp only [Codec.table] at read
      rw [Source.enter_of_deep deep] at read
      exact readTable_canonical canonical read stores.yields fun _ member => nomatch member
    | _ => cases read
  returns {source table} clean shown := by
    cases shown with
    | object start shown =>
      dsimp only [Codec.table]
      rw [Source.enter_of_deep deep,
        readTable_written _ _ shown fun entry member source shown => stores.returns (clean entry member) shown,
        insertAll_entries]
  sound {table} clean := by
    refine Json.Sound.object_of_deep deep (distinct_entries codec.write table) fun member there => ?_
    obtain ⟨entry, own, rfl⟩ := List.mem_map.1 there
    exact stores.sound (clean entry own)

end Codec
end Patchbay
