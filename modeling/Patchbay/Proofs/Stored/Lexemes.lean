import Patchbay.Json.Printer
import Patchbay.Proofs.Stored.Values

/-!
Numbers and strings that were written are read as what they were written for, up to the first character that cannot
belong to them. Integers always read back; of floats it is left open. Conversely, every number that is read is in
normal form.
-/
set_option autoImplicit false

namespace Patchbay

/-! ### Numbers -/

namespace Numeral

/-- No number goes on here. -/
def Ends (rest : List Char) : Prop := ∀ c ∈ rest.head?, isDigit c = false ∧ c ≠ '.' ∧ c ≠ 'e' ∧ c ≠ 'E'

theorem ends_of_opening {c : Char} (rest : List Char) (other : isDigit c = false ∧ c ≠ '.' ∧ c ≠ 'e' ∧ c ≠ 'E') :
    Ends (c :: rest) := by
  rintro d head
  cases head
  exact other

theorem isDigit_of_mem_toDigits {n : Nat} {c : Char} (member : c ∈ Nat.toDigits 10 n) : isDigit c = true := by
  have digit : c.isDigit = true := Nat.isDigit_of_mem_toDigits (by decide) (by decide) member
  exact digit

theorem le_ofDigitChars (digits : List Char) (n : Nat) : n ≤ Nat.ofDigitChars 10 digits n := by
  induction digits generalizing n with
  | nil => exact Nat.le_refl n
  | cons c rest ih =>
    rw [Nat.ofDigitChars_cons]
    exact Nat.le_trans (by omega) (ih _)

/-- Digits are taken up completely as long as the number that they make is a word. -/
theorem accumulate_eq (digits : List Char) (n : Nat) (small : Nat.ofDigitChars 10 digits n ≤ largestWord) :
    accumulate n digits = (Nat.ofDigitChars 10 digits n, digits.length, []) := by
  induction digits generalizing n with
  | nil => rw [accumulate, Nat.ofDigitChars_nil]; rfl
  | cons c rest ih =>
    have longer : n * 10 + digitValue c = 10 * n + (c.toNat - '0'.toNat) := by rw [Nat.mul_comm]; rfl
    rw [Nat.ofDigitChars_cons] at small ⊢
    rw [accumulate, longer, if_pos (Nat.le_trans (le_ofDigitChars rest _) small), ih _ small]
    rfl

/-- Only the number zero is written with a leading zero. -/
theorem eq_nil_of_leading_zero {n : Nat} {rest : List Char} (digits : Nat.toDigits 10 n = '0' :: rest) : rest = [] := by
  induction n using Nat.strongRecOn generalizing rest with
  | ind n ih =>
    rw [Nat.toDigits_eq_if (by decide)] at digits
    split at digits
    · exact (List.cons.inj digits).2.symm
    · next large =>
      obtain ⟨c, cs, front⟩ := List.exists_cons_of_ne_nil (Nat.toDigits_ne_nil (n := n / 10) (b := 10))
      rw [front, List.cons_append] at digits
      obtain ⟨rfl, -⟩ := List.cons.inj digits
      have single := ih (n / 10) (by omega) front
      rw [single] at front
      have zero := Nat.ofDigitChars_ten_toDigits (n := n / 10)
      rw [front] at zero
      have : 0 = n / 10 := zero
      omega

variable {rest : List Char}

/-- The digits of a number in front of anything that no number goes on with. -/
theorem takeDigits_toDigits (ends : Ends rest) (offset n : Nat) :
    takeDigits ⟨offset, Nat.toDigits 10 n ++ rest⟩ =
      (Nat.toDigits 10 n, ⟨offset + (Nat.toDigits 10 n).length, rest⟩) := by
  have stop : rest.takeWhile isDigit = [] := by
    cases rest with
    | nil => rfl
    | cons c rest => rw [List.takeWhile_cons, (ends c rfl).1]; rfl
  have digits : (Nat.toDigits 10 n ++ rest).takeWhile isDigit = Nat.toDigits 10 n := by
    rw [List.takeWhile_append_of_pos fun _ => isDigit_of_mem_toDigits, stop, List.append_nil]
  simp only [takeDigits, digits, List.drop_left]

theorem scanFraction_of_ends (ends : Ends rest) {parts : Parts} (offset : Nat) {number : Number}
    (value : parts.value offset offset = .ok number) :
    scanFraction parts ⟨offset, rest⟩ = .found number ⟨offset, rest⟩ := by
  have plain (c : Char) (other : ∀ d ∈ rest.head?, d ≠ c) : ¬ rest.head? = some c := fun same => other c same rfl
  have exponent : ¬ ((decide (rest.head? = some 'e') || decide (rest.head? = some 'E')) = true) := by
    simp only [Bool.or_eq_true, decide_eq_true_eq, not_or]
    exact ⟨plain 'e' fun d head => (ends d head).2.2.1, plain 'E' fun d head => (ends d head).2.2.2⟩
  rw [scanFraction, Cursor.peek?, if_neg (plain '.' fun d head => (ends d head).2.1), scanExponent, Cursor.peek?,
    if_neg exponent]
  simp only [value]

/-- A number without a point and an exponent. -/
theorem scan_whole (ends : Ends rest) {offset n : Nat} {number : Number} {c : Cursor}
    (digits : (if c.peek? = some '-' then c.advance else c) = ⟨offset, Nat.toDigits 10 n ++ rest⟩)
    (value : ∀ stop, Parts.value ⟨c.peek? = some '-', Nat.toDigits 10 n, none, none⟩ stop stop = .ok number) :
    ∃ stop, scan c = .found number ⟨stop, rest⟩ := by
  refine ⟨offset + (Nat.toDigits 10 n).length, ?_⟩
  have fraction := scanFraction_of_ends ends (offset + (Nat.toDigits 10 n).length) (value _)
  have leading : ∀ cs, Nat.toDigits 10 n = '0' :: cs → cs = [] := fun cs => eq_nil_of_leading_zero
  have present : Nat.toDigits 10 n ≠ [] := Nat.toDigits_ne_nil
  have taken := takeDigits_toDigits ends offset n
  rw [← digits] at taken
  unfold scan
  extract_lets negative start
  generalize Nat.toDigits 10 n = whole at fraction leading present taken
  split
  · next same => exact absurd (congrArg Prod.fst (taken.symm.trans same)) present
  · next same => cases leading _ (congrArg Prod.fst (taken.symm.trans same))
  · next same =>
    obtain ⟨rfl, rfl⟩ := Prod.mk.inj (taken.symm.trans same)
    exact fraction

theorem head_of_found {offset : Nat} {chars : List Char} {number : Number} {stop : Cursor}
    (found : scan ⟨offset, chars⟩ = .found number stop) : ∃ c cs, chars = c :: cs ∧ (c = '-' ∨ isDigit c = true) := by
  cases chars with
  | nil => cases found
  | cons c cs =>
    refine ⟨c, cs, rfl, ?_⟩
    by_cases minus : c = '-'
    · exact .inl minus
    · refine .inr (Decidable.byContradiction fun other => ?_)
      have unsigned : ¬ Cursor.peek? ⟨offset, c :: cs⟩ = some '-' := fun same => minus (Option.some.inj same)
      have none : (takeDigits ⟨offset, c :: cs⟩).1 = [] := by
        rw [takeDigits, List.takeWhile_cons, if_neg other]
      unfold scan at found
      extract_lets negative start at found
      have same : start = ⟨offset, c :: cs⟩ := if_neg unsigned
      rw [same] at found
      split at found
      · cases found
      · next taken => rw [taken] at none; cases none
      · next empty _ taken => exact empty (by rw [taken] at none; exact none)

/-! Numbers that are read are in normal form. -/

theorem canonical_of_significand {significand : Nat} (some : 0 < significand) (small : significand ≤ 1 <<< 63) :
    (Number.negative (Int64.ofInt (-(significand : Int)))).Canonical := by
  change Int64.ofInt (-(significand : Int)) < 0
  rw [show 1 <<< 63 = 2 ^ 63 from rfl] at small
  rw [Int64.lt_iff_toInt_lt, Int64.toInt_zero, Int64.toInt_ofInt_of_le (by omega) (by omega)]
  omega

theorem canonical_value {parts : Parts} {start stop : Nat} {number : Number}
    (value : parts.value start stop = .ok number) : number.Canonical := by
  unfold Parts.value at value
  generalize accumulate 0 parts.whole = taken at value
  obtain ⟨significand, count, dropped⟩ := taken
  simp only at value
  split at value
  · split at value
    · cases value; trivial
    · split at value
      · next inside =>
        rw [Bool.and_eq_true, decide_eq_true_eq, decide_eq_true_eq] at inside
        cases value
        exact canonical_of_significand inside.1 inside.2
      · cases value; trivial
  -- Every other number that is read is a real one.
  · split at value
    · split at value <;> cases value
      trivial
    · split at value
      · split at value <;> cases value
        trivial
      · split at value <;> cases value
        trivial

theorem canonical_conclude {parts : Parts} {start : Nat} {c rest : Cursor} {number : Number}
    (found : (match parts.value start c.offset with
      | .ok value => .found value c
      | .error trouble => .flawed trouble c : Lexeme Number) = .found number rest) : number.Canonical := by
  cases value : parts.value start c.offset with
  | error trouble => rw [value] at found; cases found
  | ok other => rw [value] at found; cases found; exact canonical_value value

theorem canonical_scanExponent {parts : Parts} {c rest : Cursor} {number : Number}
    (found : scanExponent parts c = .found number rest) : number.Canonical := by
  unfold scanExponent at found
  extract_lets conclude at found
  split at found
  · split at found
    · cases found
    · exact canonical_conclude found
  · exact canonical_conclude found

theorem canonical_scan {c rest : Cursor} {number : Number} (found : scan c = .found number rest) :
    number.Canonical := by
  unfold scan at found
  extract_lets at found
  split at found
  · cases found
  · cases found
  · unfold scanFraction at found
    split at found
    · split at found
      · cases found
      · exact canonical_scanExponent found
    · exact canonical_scanExponent found

end Numeral

namespace Number

/-- Wherever the text of a number stands, it is read as this number. -/
def ReadsBack (number : Number) : Prop :=
  ∀ (offset : Nat) (rest : List Char), Numeral.Ends rest →
    ∃ stop, Numeral.scan ⟨offset, number.render ++ rest⟩ = .found number ⟨stop, rest⟩

theorem readsBack_natural (word : UInt64) : (Number.natural word).ReadsBack := by
  intro offset rest ends
  have small : Nat.ofDigitChars 10 (Nat.toDigits 10 word.toNat) 0 ≤ Numeral.largestWord := by
    rw [Nat.ofDigitChars_ten_toDigits]
    exact Nat.le_pred_of_lt word.toNat_lt
  have written : (Number.natural word).render = Nat.toDigits 10 word.toNat := rfl
  have unsigned : ¬ (Cursor.peek? ⟨offset, Nat.toDigits 10 word.toNat ++ rest⟩ = some '-') := by
    obtain ⟨c, cs, digits⟩ := List.exists_cons_of_ne_nil (Nat.toDigits_ne_nil (n := word.toNat) (b := 10))
    have digit := Numeral.isDigit_of_mem_toDigits (digits ▸ List.mem_cons_self : c ∈ Nat.toDigits 10 word.toNat)
    rw [digits, Cursor.peek?, List.cons_append, List.head?_cons, Option.some.injEq]
    rintro rfl
    cases digit
  rw [written]
  refine Numeral.scan_whole ends (if_neg unsigned) fun stop => ?_
  rw [decide_eq_false unsigned, Numeral.Parts.value, Numeral.accumulate_eq _ _ small, Nat.ofDigitChars_ten_toDigits]
  exact congrArg (fun n => Except.ok (Number.natural n)) (UInt64.ofNat_toNat)

theorem readsBack_negative {value : Int64} (below : value < 0) : (Number.negative value).ReadsBack := by
  intro offset rest ends
  have less : value.toInt < 0 := by rwa [Int64.lt_iff_toInt_lt, Int64.toInt_zero] at below
  have least : -2 ^ 63 ≤ value.toInt := Int64.le_toInt value
  have written : (Number.negative value).render = '-' :: Nat.toDigits 10 (-value.toInt).toNat := by
    change (toString value.toInt).toList = _
    rw [Int.toString_eq_repr, Int.repr_eq_if, if_neg (by omega), String.toList_append, Nat.toList_repr]
    rfl
  have total : Nat.ofDigitChars 10 (Nat.toDigits 10 (-value.toInt).toNat) 0 = (-value.toInt).toNat :=
    Nat.ofDigitChars_ten_toDigits
  have small : Nat.ofDigitChars 10 (Nat.toDigits 10 (-value.toInt).toNat) 0 ≤ Numeral.largestWord := by
    rw [total]
    change _ ≤ 2 ^ 64 - 1
    omega
  rw [written]
  have signed : decide (Cursor.peek? ⟨offset, '-' :: Nat.toDigits 10 (-value.toInt).toNat ++ rest⟩ = some '-') =
    true := decide_eq_true rfl
  refine Numeral.scan_whole ends (if_pos rfl) fun stop => ?_
  have inside : 0 < (-value.toInt).toNat ∧ (-value.toInt).toNat ≤ 1 <<< 63 := by
    rw [show 1 <<< 63 = 2 ^ 63 from rfl]
    omega
  have same : Int64.ofInt (-((-value.toInt).toNat : Int)) = value := by
    rw [show -((-value.toInt).toNat : Int) = value.toInt by omega, Int64.ofInt_toInt]
  rw [signed, Numeral.Parts.value, Numeral.accumulate_eq _ _ small, total]
  simp only [Option.isNone_none, List.isEmpty_nil, Bool.and_self, Bool.not_true, Bool.false_eq_true, if_true, if_false,
    inside.1, inside.2, decide_true, same]

theorem Canonical.readsBack {number : Number} (canonical : number.Canonical)
    (real : ∀ x, number = .real x → number.ReadsBack) : number.ReadsBack := by
  cases number with
  | natural word => exact readsBack_natural word
  | negative value => exact readsBack_negative canonical
  | real x => exact real x rfl

end Number

/-! ### Strings -/

namespace Quotation

theorem unit_hexDigits : ∀ n < 0x20, unit '0' '0' (Json.hexDigit (n / 16)) (Json.hexDigit n) = some n := by decide

/-- An escaped character is read as this character. -/
theorem read_escape (c : Char) (offset : Nat) (taken rest : List Char) :
    ∃ next, read offset taken (Json.escape c ++ rest) = read next (c :: taken) rest := by
  unfold Json.escape
  split
  · exact ⟨offset + 2, rfl⟩
  · exact ⟨offset + 2, rfl⟩
  · exact ⟨offset + 2, rfl⟩
  · exact ⟨offset + 2, rfl⟩
  · exact ⟨offset + 2, rfl⟩
  · exact ⟨offset + 2, rfl⟩
  · exact ⟨offset + 2, rfl⟩
  · next quote backslash _ _ _ _ _ =>
    split
    · next control =>
      have low : isTrailing c.toNat = false ∧ isLeading c.toNat = false := by
        simp only [isTrailing, isLeading, Bool.and_eq_false_iff, decide_eq_false_iff_not]
        omega
      refine ⟨offset + 6, ?_⟩
      simp only [List.cons_append, List.nil_append]
      rw [read, unit_hexDigits _ control]
      simp only [low.1, low.2, Bool.false_eq_true, if_false, Char.ofNat_toNat]
    · next plain =>
      refine ⟨offset + c.utf8Size, ?_⟩
      rw [List.cons_append, List.nil_append, read, if_neg plain]
      · exact quote
      · exact fun same _ => backslash same
      · exact fun _ _ _ _ _ same _ => backslash same
      · exact fun _ _ same _ => backslash same

/-- Up to the closing quote all characters are read. -/
theorem read_quoted (chars : List Char) : ∀ (offset : Nat) (taken rest : List Char),
    ∃ next, read offset taken (chars.flatMap Json.escape ++ '"' :: rest) =
      .ok (taken.reverse ++ chars, ⟨next, rest⟩) := by
  induction chars with
  | nil => exact fun offset taken rest => ⟨offset + 1, by rw [List.append_nil]; rfl⟩
  | cons c chars ih =>
    intro offset taken rest
    obtain ⟨behind, first⟩ := read_escape c offset taken (chars.flatMap Json.escape ++ '"' :: rest)
    obtain ⟨next, later⟩ := ih behind (c :: taken) rest
    refine ⟨next, ?_⟩
    rw [List.flatMap_cons, List.append_assoc, first, later, List.reverse_cons, List.append_assoc]
    rfl

theorem scan_quoted (text : String) (offset : Nat) (rest : List Char) :
    ∃ next, scan ⟨offset, text.toList.flatMap Json.escape ++ '"' :: rest⟩ = .found text ⟨next, rest⟩ := by
  obtain ⟨next, chars⟩ := read_quoted text.toList offset [] rest
  refine ⟨next, ?_⟩
  rw [scan, chars]
  simp only [List.reverse_nil, List.nil_append, String.ofList_toList]

end Quotation

end Patchbay
