import Patchbay.Proofs.Stored.Lexemes

/-!
Text that was written is read as the value it was written for: the tree of the whole text denotes the value, see
`Source.scan_prettyChars`. Conversely, whatever text is read, the numbers in its tree are in normal form.
-/
set_option autoImplicit false

namespace Patchbay

/-! ### Trees -/

mutual
/-- The numbers in a value. -/
def Json.numbers : Json → List Number
  | .number value => [value]
  | .array items => numbersOfItems items
  | .object members => numbersOfMembers members
  | _ => []

def Json.numbersOfItems : List Json → List Number
  | [] => []
  | item :: rest => item.numbers ++ numbersOfItems rest

def Json.numbersOfMembers : List (String × Json) → List Number
  | [] => []
  | (_, value) :: rest => value.numbers ++ numbersOfMembers rest
end

theorem Json.mem_numbersOfItems {number : Number} : ∀ {items : List Json}, number ∈ numbersOfItems items →
    ∃ item ∈ items, number ∈ item.numbers
  | item :: rest, member => by
    rw [numbersOfItems, List.mem_append] at member
    rcases member with here | later
    · exact ⟨item, List.mem_cons_self, here⟩
    · obtain ⟨other, there, own⟩ := mem_numbersOfItems later
      exact ⟨other, List.mem_cons_of_mem item there, own⟩

theorem Json.mem_numbersOfMembers {number : Number} : ∀ {members : List (String × Json)},
    number ∈ numbersOfMembers members → ∃ member ∈ members, number ∈ member.2.numbers
  | (key, value) :: rest, there => by
    rw [numbersOfMembers, List.mem_append] at there
    rcases there with here | later
    · exact ⟨(key, value), List.mem_cons_self, here⟩
    · obtain ⟨other, there, own⟩ := mem_numbersOfMembers later
      exact ⟨other, List.mem_cons_of_mem _ there, own⟩

theorem Json.Sound.canonical_of_mem {levels : Nat} {value : Json} (sound : value.Sound levels) :
    ∀ number ∈ value.numbers, number.Canonical := by
  induction sound with
  | null | bool | text => exact fun _ member => nomatch member
  | number levels number canonical =>
    intro other member
    rw [Json.numbers, List.mem_singleton] at member
    exact member ▸ canonical
  | array levels items _ ih =>
    intro number member
    rw [Json.numbers] at member
    obtain ⟨item, there, own⟩ := Json.mem_numbersOfItems member
    exact ih item there number own
  | object levels members _ _ ih =>
    intro number member
    rw [Json.numbers] at member
    obtain ⟨entry, there, own⟩ := Json.mem_numbersOfMembers member
    exact ih entry there number own

theorem Cursor.skipBlanks_append (blanks : List Char) (blank : ∀ c ∈ blanks, isBlank c = true) (offset : Nat) {c : Char}
    (solid : isBlank c = false) (rest : List Char) :
    skipBlanks ⟨offset, blanks ++ c :: rest⟩ = ⟨offset + blanks.length, c :: rest⟩ := by
  change blanksFrom offset (blanks ++ c :: rest) = _
  induction blanks generalizing offset with
  | nil => exact if_neg (Bool.eq_false_iff.1 solid)
  | cons b blanks ih =>
    rw [List.cons_append, blanksFrom, if_pos (blank b List.mem_cons_self),
      ih (fun c member => blank c (List.mem_cons_of_mem b member)), List.length_cons]
    congr 1
    omega

theorem Json.blank_of_mem_newline {depth : Nat} {c : Char} (member : c ∈ newline depth) : Cursor.isBlank c = true := by
  rcases List.mem_cons.1 member with rfl | space
  · rfl
  · rw [List.eq_of_mem_replicate space]; rfl

/-- What the text of a value begins with: no blank, and nothing that ends an array. -/
def Json.Opens (chars : List Char) : Prop :=
  ∃ c cs, chars = c :: cs ∧ Cursor.isBlank c = false ∧ c ≠ ']'

theorem Json.opens_prettyChars {value : Json} (legible : ∀ number ∈ value.numbers, number.ReadsBack) (depth : Nat) :
    Opens (prettyChars depth value) := by
  cases value with
  | null => exact ⟨_, _, rfl, rfl, by decide⟩
  | bool flag => cases flag <;> exact ⟨_, _, rfl, rfl, by decide⟩
  | number number =>
    have listed : number ∈ (Json.number number).numbers := by rw [numbers]; exact List.mem_singleton.2 rfl
    obtain ⟨stop, found⟩ := legible number listed 0 [] (fun _ end? => nomatch end?)
    obtain ⟨c, cs, chars, start⟩ := Numeral.head_of_found found
    rw [List.append_nil] at chars
    refine ⟨c, cs, by rw [prettyChars, chars], ?_⟩
    rcases start with rfl | digit
    · exact ⟨rfl, by decide⟩
    · refine ⟨Bool.eq_false_iff.2 fun blank => ?_, by rintro rfl; cases digit⟩
      simp only [Cursor.isBlank, Bool.or_eq_true, decide_eq_true_eq] at blank
      rcases blank with ((rfl | rfl) | rfl) | rfl <;> cases digit
  | text text => exact ⟨_, _, by rw [prettyChars, quote], rfl, by decide⟩
  | array items => cases items <;> exact ⟨_, _, by rw [prettyChars], rfl, by decide⟩
  | object members => cases members <;> exact ⟨_, _, by rw [prettyChars], rfl, by decide⟩

theorem Cursor.skipBlanks_solid {c : Char} (solid : isBlank c = false) (offset : Nat) (rest : List Char) :
    skipBlanks ⟨offset, c :: rest⟩ = ⟨offset, c :: rest⟩ :=
  skipBlanks_append [] (fun _ member => nomatch member) offset solid rest

namespace Source

/-! The steps of the scanner over text that was written. -/

section Steps

variable (fuel offset : Nat) (chars : List Char)

theorem scan_blanks (blanks : List Char) (blank : ∀ c ∈ blanks, Cursor.isBlank c = true) {c : Char}
    (solid : Cursor.isBlank c = false) :
    scan (fuel + 1) ⟨offset, blanks ++ c :: chars⟩ = scan (fuel + 1) ⟨offset + blanks.length, c :: chars⟩ := by
  rw [scan, scan, Cursor.skipBlanks_append blanks blank offset solid, Cursor.skipBlanks_solid solid]

theorem scan_string :
    scan (fuel + 1) ⟨offset, '"' :: chars⟩ =
      ofLexeme .text ⟨offset, '"' :: chars⟩ (Quotation.scan ⟨offset + 1, chars⟩) :=
  rfl

theorem scan_number {c : Char} (start : c = '-' ∨ Numeral.isDigit c = true) :
    scan (fuel + 1) ⟨offset, c :: chars⟩ =
      ofLexeme .number ⟨offset, c :: chars⟩ (Numeral.scan ⟨offset, c :: chars⟩) := by
  have other {d : Char} (plain : d ≠ '-' ∧ Numeral.isDigit d = false) : c ≠ d := by
    rintro rfl
    rcases start with minus | digit
    · exact plain.1 minus
    · rw [plain.2] at digit
      cases digit
  have solid : Cursor.isBlank c = false := by
    refine Bool.eq_false_iff.2 fun blank => ?_
    simp only [Cursor.isBlank, Bool.or_eq_true, decide_eq_true_eq] at blank
    rcases blank with ((space | newline) | tab) | back
    · exact other (by decide) space
    · exact other (by decide) newline
    · exact other (by decide) tab
    · exact other (by decide) back
  rw [scan, Cursor.skipBlanks_solid solid]
  simp only [Cursor.peek?, List.head?_cons]
  split
  · next none => cases none
  · next letter => exact absurd (Option.some.inj letter) (other (by decide))
  · next letter => exact absurd (Option.some.inj letter) (other (by decide))
  · next letter => exact absurd (Option.some.inj letter) (other (by decide))
  · next letter => exact absurd (Option.some.inj letter) (other (by decide))
  · next letter => exact absurd (Option.some.inj letter) (other (by decide))
  · next letter => exact absurd (Option.some.inj letter) (other (by decide))
  · next first _ _ _ _ _ _ same =>
    cases same
    exact if_pos (by simpa using start)

theorem scan_array : scan (fuel + 1) ⟨offset, '[' :: chars⟩ =
    (.array offset (scanFirstItem fuel ⟨offset + 1, chars⟩).1, (scanFirstItem fuel ⟨offset + 1, chars⟩).2) := rfl

theorem scan_object : scan (fuel + 1) ⟨offset, '{' :: chars⟩ =
    (.object offset (scanFirstMember fuel ⟨offset + 1, chars⟩).1, (scanFirstMember fuel ⟨offset + 1, chars⟩).2) := rfl

theorem scanFirstItem_newline (depth : Nat) {c : Char} (solid : Cursor.isBlank c = false) (more : c ≠ ']') :
    scanFirstItem (fuel + 1) ⟨offset, Json.newline depth ++ c :: chars⟩ =
      scanItem fuel ⟨offset + (Json.newline depth).length, c :: chars⟩ := by
  rw [scanFirstItem, Cursor.skipBlanks_append _ (fun _ => Json.blank_of_mem_newline) offset solid]
  simp only [Cursor.peek?, List.head?_cons]

theorem scanNextItem_newline (depth : Nat) {c : Char} (solid : Cursor.isBlank c = false) (more : c ≠ ']') :
    scanNextItem (fuel + 1) ⟨offset, ',' :: (Json.newline depth ++ c :: chars)⟩ =
      scanItem fuel ⟨offset + 1 + (Json.newline depth).length, c :: chars⟩ := by
  rw [scanNextItem, Cursor.skipBlanks_solid rfl]
  simp only [Cursor.peek?, List.head?_cons, Cursor.advance, List.drop_succ_cons, List.drop_zero,
    Cursor.skipBlanks_append _ (fun _ => Json.blank_of_mem_newline) _ solid]

theorem scanNextItem_closed (depth : Nat) : scanNextItem (fuel + 1) ⟨offset, Json.newline depth ++ ']' :: chars⟩ =
    (.closed (offset + (Json.newline depth).length + 1), ⟨offset + (Json.newline depth).length + 1, chars⟩) := by
  rw [scanNextItem, Cursor.skipBlanks_append _ (fun _ => Json.blank_of_mem_newline) offset rfl]
  rfl

theorem scanFirstMember_newline (depth : Nat) :
    scanFirstMember (fuel + 1) ⟨offset, Json.newline depth ++ '"' :: chars⟩ =
      scanMember fuel ⟨offset + (Json.newline depth).length + 1, chars⟩ := by
  rw [scanFirstMember, Cursor.skipBlanks_append _ (fun _ => Json.blank_of_mem_newline) offset rfl]
  rfl

theorem scanNextMember_newline (depth : Nat) :
    scanNextMember (fuel + 1) ⟨offset, ',' :: (Json.newline depth ++ '"' :: chars)⟩ =
      scanMember fuel ⟨offset + 1 + (Json.newline depth).length + 1, chars⟩ := by
  rw [scanNextMember, Cursor.skipBlanks_solid rfl]
  simp only [Cursor.peek?, List.head?_cons, Cursor.advance, List.drop_succ_cons, List.drop_zero,
    Cursor.skipBlanks_append _ (fun _ => Json.blank_of_mem_newline) _ (show Cursor.isBlank '"' = false from rfl)]

theorem scanNextMember_closed (depth : Nat) : scanNextMember (fuel + 1) ⟨offset, Json.newline depth ++ '}' :: chars⟩ =
    (.closed (offset + (Json.newline depth).length + 1), ⟨offset + (Json.newline depth).length + 1, chars⟩) := by
  rw [scanNextMember, Cursor.skipBlanks_append _ (fun _ => Json.blank_of_mem_newline) offset rfl]
  rfl

theorem scanItem_eq {c behind stop : Cursor} {source : Source} {items : Items} (first : scan fuel c = (source, behind))
    (later : scanNextItem fuel behind = (items, stop)) :
    ∃ surplus after, scanItem (fuel + 1) c = (.item surplus source after items, stop) := by
  refine ⟨c.report .trailingCharacters, afterItem behind, ?_⟩
  rw [scanItem, first]
  simp only [later]

theorem scanMember_eq (key : String) :
    ∃ next, scanMember (fuel + 1) ⟨offset, key.toList.flatMap Json.escape ++ '"' :: chars⟩ =
      scanMemberValue fuel (.ok key) ⟨next, chars⟩ := by
  obtain ⟨next, found⟩ := Quotation.scan_quoted key offset chars
  refine ⟨next, ?_⟩
  rw [scanMember, found]

theorem scanMemberValue_eq {key : Except Trouble String} {source : Source} {members : Members} {behind stop : Cursor}
    {c : Char} (solid : Cursor.isBlank c = false) (first : scan (fuel + 1) ⟨offset + 2, c :: chars⟩ = (source, behind))
    (later : scanNextMember (fuel + 1) behind = (members, stop)) :
    ∃ afterKey after, scanMemberValue (fuel + 2) key ⟨offset, ':' :: ' ' :: c :: chars⟩ =
      (.member key afterKey source after members, stop) := by
  have spaced : scan (fuel + 1) ⟨offset + 1, ' ' :: c :: chars⟩ = (source, behind) :=
    (scan_blanks fuel (offset + 1) chars [' '] (List.forall_mem_singleton.2 rfl) solid).trans first
  refine ⟨afterMember ⟨offset, ':' :: ' ' :: c :: chars⟩, afterMember behind, ?_⟩
  rw [scanMemberValue, Cursor.skipBlanks_solid rfl]
  simp only [Cursor.peek?, List.head?_cons, Cursor.advance, List.drop_succ_cons, List.drop_zero, spaced, later]

end Steps

theorem ends_prettyItems (depth : Nat) (items : List Json) (rest : List Char) :
    Numeral.Ends (Json.prettyItems depth items ++ rest) := by
  cases items with
  | nil => exact Numeral.ends_of_opening _ (by decide)
  | cons item items => rw [Json.prettyItems]; exact Numeral.ends_of_opening _ (by decide)

theorem ends_prettyMembers (depth : Nat) (members : List (String × Json)) (rest : List Char) :
    Numeral.Ends (Json.prettyMembers depth members ++ rest) := by
  cases members with
  | nil => exact Numeral.ends_of_opening _ (by decide)
  | cons member members => rw [Json.prettyMembers]; exact Numeral.ends_of_opening _ (by decide)

/-- The text is taken up as this value, and `rest` is left over. -/
def Takes (fuel : Nat) (chars : List Char) (value : Json) (rest : List Char) : Prop :=
  ∀ offset, ∃ source stop, scan fuel ⟨offset, chars⟩ = (source, ⟨stop, rest⟩) ∧ source.Denotes value

def TakesItems (scanner : Cursor → Items × Cursor) (chars : List Char) (items : List Json) (rest : List Char) : Prop :=
  ∀ offset, ∃ tree stop, scanner ⟨offset, chars⟩ = (tree, ⟨stop, rest⟩) ∧ tree.Denote items

def TakesMembers (scanner : Cursor → Members × Cursor) (chars : List Char) (members : Fields) (rest : List Char) :
    Prop :=
  ∀ offset, ∃ tree stop, scanner ⟨offset, chars⟩ = (tree, ⟨stop, rest⟩) ∧ tree.Denote members

theorem takes_item {fuel : Nat} {chars behind rest : List Char} {item : Json} {items : List Json}
    (first : Takes fuel chars item behind) (later : TakesItems (scanNextItem fuel) behind items rest) :
    TakesItems (scanItem (fuel + 1)) chars (item :: items) rest := by
  intro offset
  obtain ⟨source, next, first, shown⟩ := first offset
  obtain ⟨tree, stop, later, shownAll⟩ := later next
  obtain ⟨surplus, after, all⟩ := scanItem_eq fuel first later
  exact ⟨_, stop, all, .item surplus after shown shownAll⟩

theorem takes_member (key : String) {fuel : Nat} {chars behind rest : List Char} {value : Json} {members : Fields}
    (opens : Json.Opens chars) (first : Takes (fuel + 1) chars value behind)
    (later : TakesMembers (scanNextMember (fuel + 1)) behind members rest) :
    TakesMembers (scanMember (fuel + 3)) (key.toList.flatMap Json.escape ++ '"' :: ':' :: ' ' :: chars)
      ((key, value) :: members) rest := by
  intro offset
  obtain ⟨c, cs, rfl, solid, -⟩ := opens
  obtain ⟨colon, keyRead⟩ := scanMember_eq (fuel + 2) offset (':' :: ' ' :: c :: cs) key
  obtain ⟨source, next, first, shown⟩ := first (colon + 2)
  obtain ⟨tree, stop, later, shownAll⟩ := later next
  obtain ⟨afterKey, after, valueRead⟩ := scanMemberValue_eq fuel colon cs solid first later
  exact ⟨_, stop, keyRead.trans valueRead, .member key afterKey after shown shownAll⟩

theorem Opens.append {chars : List Char} (opens : Json.Opens chars) (rest : List Char) :
    Json.Opens (chars ++ rest) := by
  obtain ⟨c, cs, rfl, solid, more⟩ := opens
  exact ⟨c, cs ++ rest, rfl, solid, more⟩

mutual
/-- The text of a value is taken up completely and gives a tree that denotes the value. -/
theorem scan_prettyChars : ∀ (value : Json) (depth fuel : Nat) (rest : List Char),
    (∀ number ∈ value.numbers, number.ReadsBack) → Numeral.Ends rest →
      4 * (Json.prettyChars depth value).length ≤ fuel → Takes fuel (Json.prettyChars depth value ++ rest) value rest
  | .null, depth, fuel, rest, _, _, enough => fun offset => by
    obtain ⟨fuel, rfl⟩ := Nat.exists_eq_add_of_le' (Nat.le_trans (show 1 ≤ 16 by decide) enough)
    exact ⟨.null (offset + 4), offset + 4, rfl, .null _⟩
  | .bool true, depth, fuel, rest, _, _, enough => fun offset => by
    obtain ⟨fuel, rfl⟩ := Nat.exists_eq_add_of_le' (Nat.le_trans (show 1 ≤ 16 by decide) enough)
    exact ⟨.bool true (offset + 4), offset + 4, rfl, .bool true _⟩
  | .bool false, depth, fuel, rest, _, _, enough => fun offset => by
    obtain ⟨fuel, rfl⟩ := Nat.exists_eq_add_of_le' (Nat.le_trans (show 1 ≤ 20 by decide) enough)
    exact ⟨.bool false (offset + 5), offset + 5, rfl, .bool false _⟩
  | .number own, depth, fuel, rest, legible, ends, enough => fun offset => by
    obtain ⟨stop, found⟩ := legible own (by rw [Json.numbers]; exact List.mem_singleton.2 rfl) offset rest ends
    obtain ⟨c, cs, chars, start⟩ := Numeral.head_of_found found
    obtain ⟨first, others, shape, -⟩ := Json.opens_prettyChars legible depth
    rw [shape, List.length_cons] at enough
    obtain ⟨fuel, rfl⟩ := Nat.exists_eq_add_of_le' (show 1 ≤ fuel by omega)
    refine ⟨.number own stop, stop, ?_, .number own stop⟩
    rw [Json.prettyChars, chars, scan_number fuel offset cs start, ← chars, found]
    rfl
  | .text own, depth, fuel, rest, _, _, enough => fun offset => by
    rw [Json.prettyChars, Json.quote, List.length_cons] at enough
    obtain ⟨fuel, rfl⟩ := Nat.exists_eq_add_of_le' (show 1 ≤ fuel by omega)
    obtain ⟨stop, found⟩ := Quotation.scan_quoted own (offset + 1) rest
    refine ⟨.text own stop, stop, ?_, .text own stop⟩
    rw [Json.prettyChars, Json.quote, List.cons_append, List.append_assoc, scan_string,
      show ['"'] ++ rest = '"' :: rest from rfl, found]
    rfl
  | .array [], depth, fuel, rest, _, _, enough => fun offset => by
    obtain ⟨fuel, rfl⟩ := Nat.exists_eq_add_of_le' (Nat.le_trans (show 2 ≤ 8 by decide) enough)
    exact ⟨.array offset (.closed (offset + 2)), offset + 2, rfl, .array offset (.closed _)⟩
  | .array (item :: items), depth, fuel, rest, legible, ends, enough => fun offset => by
    rw [Json.prettyChars] at enough ⊢
    simp only [List.length_cons, List.length_append] at enough
    rw [Json.numbers, Json.numbersOfItems, List.forall_mem_append] at legible
    obtain ⟨fuel, rfl⟩ := Nat.exists_eq_add_of_le' (show 3 ≤ fuel by omega)
    have all := takes_item
      (scan_prettyChars item (depth + 1) fuel _ legible.1 (ends_prettyItems depth items rest) (by omega))
      (scan_prettyItems items depth fuel rest legible.2 (by omega))
    obtain ⟨c, cs, chars, solid, more⟩ := Json.opens_prettyChars legible.1 (depth + 1)
    obtain ⟨tree, stop, all, shown⟩ := all (offset + 1 + (Json.newline (depth + 1)).length)
    refine ⟨.array offset tree, stop, ?_, .array offset shown⟩
    rw [chars, List.cons_append] at all
    rw [chars, List.cons_append, scan_array, List.append_assoc, List.append_assoc, List.cons_append,
      scanFirstItem_newline _ _ _ _ solid more, all]
  | .object [], depth, fuel, rest, _, _, enough => fun offset => by
    obtain ⟨fuel, rfl⟩ := Nat.exists_eq_add_of_le' (Nat.le_trans (show 2 ≤ 8 by decide) enough)
    exact ⟨.object offset (.closed (offset + 2)), offset + 2, rfl, .object offset (.closed _)⟩
  | .object ((key, value) :: members), depth, fuel, rest, legible, ends, enough => fun offset => by
    rw [Json.prettyChars, Json.quote] at enough ⊢
    simp only [List.length_cons, List.length_append] at enough
    rw [Json.numbers, Json.numbersOfMembers, List.forall_mem_append] at legible
    obtain ⟨fuel, rfl⟩ := Nat.exists_eq_add_of_le' (show 5 ≤ fuel by omega)
    have all := takes_member key (Opens.append (Json.opens_prettyChars legible.1 (depth + 1)) _)
      (scan_prettyChars value (depth + 1) (fuel + 1) _ legible.1 (ends_prettyMembers depth members rest) (by omega))
      (scan_prettyMembers members depth (fuel + 1) rest legible.2 (by omega))
    obtain ⟨tree, stop, all, shown⟩ := all (offset + 1 + (Json.newline (depth + 1)).length + 1)
    refine ⟨.object offset tree, stop, ?_, .object offset shown⟩
    rw [List.cons_append, scan_object]
    simp only [List.append_assoc, List.cons_append, List.nil_append]
    rw [scanFirstMember_newline, all]

theorem scan_prettyItems : ∀ (items : List Json) (depth fuel : Nat) (rest : List Char),
    (∀ number ∈ Json.numbersOfItems items, number.ReadsBack) → 4 * (Json.prettyItems depth items).length ≤ fuel →
      TakesItems (scanNextItem fuel) (Json.prettyItems depth items ++ rest) items rest
  | [], depth, fuel, rest, _, enough => fun offset => by
    rw [Json.prettyItems, List.length_append, List.length_singleton] at enough
    obtain ⟨fuel, rfl⟩ := Nat.exists_eq_add_of_le' (show 1 ≤ fuel by omega)
    rw [Json.prettyItems, List.append_assoc]
    exact ⟨_, _, scanNextItem_closed fuel offset rest depth, .closed _⟩
  | item :: items, depth, fuel, rest, legible, enough => fun offset => by
    rw [Json.prettyItems] at enough ⊢
    simp only [List.length_cons, List.length_append] at enough
    rw [Json.numbersOfItems, List.forall_mem_append] at legible
    obtain ⟨fuel, rfl⟩ := Nat.exists_eq_add_of_le' (show 2 ≤ fuel by omega)
    have all := takes_item
      (scan_prettyChars item (depth + 1) fuel _ legible.1 (ends_prettyItems depth items rest) (by omega))
      (scan_prettyItems items depth fuel rest legible.2 (by omega))
    obtain ⟨c, cs, chars, solid, more⟩ := Json.opens_prettyChars legible.1 (depth + 1)
    obtain ⟨tree, stop, all, shown⟩ := all (offset + 1 + (Json.newline (depth + 1)).length)
    refine ⟨tree, stop, ?_, shown⟩
    rw [chars, List.cons_append] at all
    rw [chars, List.cons_append, List.append_assoc, List.append_assoc, List.cons_append,
      scanNextItem_newline _ _ _ _ solid more, all]

theorem scan_prettyMembers : ∀ (members : List (String × Json)) (depth fuel : Nat) (rest : List Char),
    (∀ number ∈ Json.numbersOfMembers members, number.ReadsBack) →
      4 * (Json.prettyMembers depth members).length ≤ fuel →
        TakesMembers (scanNextMember fuel) (Json.prettyMembers depth members ++ rest) members rest
  | [], depth, fuel, rest, _, enough => fun offset => by
    rw [Json.prettyMembers, List.length_append, List.length_singleton] at enough
    obtain ⟨fuel, rfl⟩ := Nat.exists_eq_add_of_le' (show 1 ≤ fuel by omega)
    rw [Json.prettyMembers, List.append_assoc]
    exact ⟨_, _, scanNextMember_closed fuel offset rest depth, .closed _⟩
  | (key, value) :: members, depth, fuel, rest, legible, enough => fun offset => by
    rw [Json.prettyMembers, Json.quote] at enough ⊢
    simp only [List.length_cons, List.length_append] at enough
    rw [Json.numbersOfMembers, List.forall_mem_append] at legible
    obtain ⟨fuel, rfl⟩ := Nat.exists_eq_add_of_le' (show 4 ≤ fuel by omega)
    have all := takes_member key (Opens.append (Json.opens_prettyChars legible.1 (depth + 1)) _)
      (scan_prettyChars value (depth + 1) (fuel + 1) _ legible.1 (ends_prettyMembers depth members rest) (by omega))
      (scan_prettyMembers members depth (fuel + 1) rest legible.2 (by omega))
    obtain ⟨tree, stop, all, shown⟩ := all (offset + 1 + (Json.newline (depth + 1)).length + 1)
    refine ⟨tree, stop, ?_, shown⟩
    simp only [List.append_assoc, List.cons_append, List.nil_append]
    rw [scanNextMember_newline, all]
end

/-- A value that was written is read from its text. -/
theorem ofText_pretty {value : Json} (legible : ∀ number ∈ value.numbers, number.ReadsBack) :
    ∃ source, ofText value.pretty = (source, none) ∧ source.Denotes value := by
  have chars : Cursor.ofText value.pretty = ⟨0, Json.prettyChars 0 value ++ []⟩ := by
    rw [Cursor.ofText, Json.pretty, String.toList_ofList, List.append_nil]
  obtain ⟨source, stop, all, shown⟩ := scan_prettyChars value 0 (4 * (Json.prettyChars 0 value).length + 4) []
    legible (fun _ head => nomatch head) (Nat.le_add_right ..) 0
  refine ⟨source, ?_, shown⟩
  unfold ofText
  rw [List.append_nil] at chars all
  rw [chars]
  simp only [all]
  rfl

end Source

/-! ### Numbers in normal form -/

namespace Source

theorem canonical_ofLexeme {α : Type} {value : α → Nat → Source} {c : Cursor} {lexeme : Lexeme α}
    (canonical : ∀ found rest stop, lexeme = .found found rest → (value found stop).Canonical) :
    (ofLexeme value c lexeme).1.Canonical := by
  cases lexeme with
  | found found rest => exact canonical found rest rest.offset rfl
  | flawed trouble rest => trivial
  | broken reading skipping => trivial

theorem canonical_ofWord {expected : List Char} {c : Cursor} {value : Nat → Source}
    (canonical : ∀ stop, (value stop).Canonical) : (ofWord expected c value).1.Canonical := by
  unfold ofWord
  split
  · exact canonical _
  · trivial

/-- All parts that are scanned with some fuel are in normal form. -/
structure CanonicalAt (fuel : Nat) : Prop where
  value : ∀ c, (scan fuel c).1.Canonical
  firstItem : ∀ c, (scanFirstItem fuel c).1.Canonical
  item : ∀ c, (scanItem fuel c).1.Canonical
  nextItem : ∀ c, (scanNextItem fuel c).1.Canonical
  firstMember : ∀ c, (scanFirstMember fuel c).1.Canonical
  member : ∀ c, (scanMember fuel c).1.Canonical
  memberValue : ∀ key c, (scanMemberValue fuel key c).1.Canonical
  nextMember : ∀ c, (scanNextMember fuel c).1.Canonical

theorem canonicalAt (fuel : Nat) : CanonicalAt fuel := by
  induction fuel with
  | zero => exact ⟨fun _ => trivial, fun _ => trivial, fun _ => trivial, fun _ => trivial, fun _ => trivial,
      fun _ => trivial, fun _ _ => trivial, fun _ => trivial⟩
  | succ fuel below =>
    refine ⟨fun c => ?_, fun c => ?_, fun c => ?_, fun c => ?_, fun c => ?_, fun c => ?_, fun key c => ?_, fun c => ?_⟩
    · rw [scan]
      split
      · trivial
      · exact canonical_ofWord fun _ => trivial
      · exact canonical_ofWord fun _ => trivial
      · exact canonical_ofWord fun _ => trivial
      · exact canonical_ofLexeme fun _ _ _ _ => trivial
      · exact below.firstItem _
      · exact below.firstMember _
      · split
        · exact canonical_ofLexeme fun _ _ _ found => Numeral.canonical_scan found
        · trivial
    · rw [scanFirstItem]
      split
      · trivial
      · trivial
      · exact below.item _
    · rw [scanItem]
      exact ⟨below.value c, below.nextItem _⟩
    · rw [scanNextItem]
      split
      · trivial
      · trivial
      · simp only
        split
        · trivial
        · trivial
        · exact below.item _
      · trivial
    · rw [scanFirstMember]
      split
      · trivial
      · trivial
      · exact below.member _
      · trivial
    · rw [scanMember]
      split
      · exact below.memberValue _ _
      · exact below.memberValue _ _
      · trivial
    · rw [scanMemberValue]
      simp only
      split
      · exact ⟨below.value _, below.nextMember _⟩
      · exact ⟨trivial, trivial⟩
    · rw [scanNextMember]
      split
      · trivial
      · trivial
      · simp only
        split
        · trivial
        · exact below.member _
        · trivial
        · trivial
      · trivial

/-- Whatever a text says, the numbers in its tree are in normal form. -/
theorem canonical_ofText (text : String) : (ofText text).1.Canonical :=
  (canonicalAt (4 * (Cursor.ofText text).chars.length + 4)).value (Cursor.ofText text)

end Source
end Patchbay
