import Patchbay.Sequencing.Forms

/-!
Fresh link ids. The counter of a document stands above every id in use, or at the largest word, where
it stays.
-/
set_option autoImplicit false

namespace Patchbay

namespace Word

-- There is no word above this one; a counter that has come here no longer moves.
def top : Word := UInt64.ofNat (UInt64.size - 1)

theorem toNat_top : top.toNat = UInt64.size - 1 := by
  unfold top
  rw [UInt64.toNat_ofNat']
  rfl

theorem toNat_max (a b : Word) : (max a b).toNat = max a.toNat b.toNat := by
  change (if a ≤ b then b else a).toNat = _
  by_cases le : a ≤ b
  · rw [if_pos le, Nat.max_eq_right (UInt64.le_iff_toNat_le.1 le)]
  · rw [if_neg le, Nat.max_eq_left]
    rw [UInt64.le_iff_toNat_le] at le
    omega

theorem le_max_left (a b : Word) : a ≤ max a b := by
  rw [UInt64.le_iff_toNat_le, toNat_max]
  omega

theorem le_max_right (a b : Word) : b ≤ max a b := by
  rw [UInt64.le_iff_toNat_le, toNat_max]
  omega

instance lawfulMax : Std.LawfulOrderMax Word :=
  .of_max_le_iff
    (fun a b c => by
      simp only [UInt64.le_iff_toNat_le, toNat_max]
      omega)
    (fun a b => by
      simp only [← UInt64.toNat_inj, toNat_max]
      omega)

theorem raise_le_iff (a b : Word) (n : Nat) :
    raise a n ≤ b ↔ min (a.toNat + n) (UInt64.size - 1) ≤ b.toNat := by
  rw [UInt64.le_iff_toNat_le, toNat_raise]

theorem le_raise (w : Word) (n : Nat) : w ≤ raise w n := by
  have bound := w.toNat_lt
  rw [UInt64.le_iff_toNat_le, toNat_raise]
  simp only [UInt64.size]
  omega

theorem raise_mono {a b : Word} (n : Nat) (le : a ≤ b) : raise a n ≤ raise b n := by
  rw [UInt64.le_iff_toNat_le] at le
  rw [raise_le_iff, toNat_raise]
  omega

theorem eq_top_of_raise_le {w : Word} (le : raise w 1 ≤ w) : w = top := by
  have bound := w.toNat_lt
  rw [raise_le_iff] at le
  rw [← UInt64.toNat_inj, toNat_top]
  simp only [UInt64.size] at le ⊢
  omega

theorem le_top (w : Word) : w ≤ top := by
  have bound := w.toNat_lt
  rw [UInt64.le_iff_toNat_le, toNat_top]
  simp only [UInt64.size]
  omega

theorem eq_top_of_top_le {w : Word} (le : top ≤ w) : w = top := by
  have bound := UInt64.le_iff_toNat_le.1 (le_top w)
  rw [UInt64.le_iff_toNat_le] at le
  rw [← UInt64.toNat_inj]
  omega

theorem raise_top (n : Nat) : raise top n = top := eq_top_of_top_le (le_raise top n)

theorem raise_lower_of_pos {w : Word} (pos : 0 < w) : raise (lower w 1) 1 = w := by
  have bound := w.toNat_lt
  rw [UInt64.lt_iff_toNat_lt] at pos
  rw [← UInt64.toNat_inj, toNat_raise, toNat_lower]
  simp only [UInt64.size, UInt64.toNat_zero] at pos ⊢
  omega

/-- A word that was moved up is found again by going down and up, even where it came to the top. -/
theorem raise_lower_raise (w : Word) (n : Nat) : raise (lower (raise w n) n) n = raise w n := by
  have bound := w.toNat_lt
  rw [← UInt64.toNat_inj, toNat_raise, toNat_lower, toNat_raise]
  simp only [UInt64.size]
  omega

/-- The same the other way round, even where it came to zero. -/
theorem lower_raise_lower (w : Word) (n : Nat) : lower (raise (lower w n) n) n = lower w n := by
  have bound := w.toNat_lt
  rw [← UInt64.toNat_inj, toNat_lower, toNat_raise, toNat_lower]
  simp only [UInt64.size]
  omega

theorem raise_one_pos (w : Word) : 0 < raise w 1 := by
  rw [UInt64.lt_iff_toNat_lt, toNat_raise]
  simp only [UInt64.size, UInt64.toNat_zero]
  omega

end Word

namespace Document

-- Every link id that a fresh one must stay clear of.
def usedIds (doc : Document) : List LinkId := doc.linkIds ++ doc.lastLinkId.toList

theorem raise_le_nextLinkId (doc : Document) {id : LinkId} (used : id ∈ doc.usedIds) :
    id.raise 1 ≤ doc.nextLinkId := by
  unfold nextLinkId
  cases largest : (doc.linkIds ++ doc.lastLinkId.toList).max? with
  | none =>
    rw [List.max?_eq_none_iff] at largest
    rw [usedIds, largest] at used
    cases used
  | some max => exact Word.raise_mono 1 ((List.max?_eq_some_iff.1 largest).2 id used)

theorem nextLinkId_eq (doc : Document) (next : LinkId) (above : ∀ id ∈ doc.usedIds, id.raise 1 ≤ next)
    (reached : 0 < next → ∃ id ∈ doc.usedIds, id.raise 1 = next) : doc.nextLinkId = next := by
  unfold nextLinkId
  cases largest : (doc.linkIds ++ doc.lastLinkId.toList).max? with
  | none =>
    rw [List.max?_eq_none_iff] at largest
    have notAbove : ¬ 0 < next := by
      intro pos
      obtain ⟨id, used, _⟩ := reached pos
      rw [usedIds, largest] at used
      cases used
    rw [← UInt64.toNat_inj]
    rw [UInt64.lt_iff_toNat_lt] at notAbove
    simp only [UInt64.toNat_zero] at notAbove ⊢
    omega
  | some max =>
    obtain ⟨member, bound⟩ := List.max?_eq_some_iff.1 largest
    have below := above max member
    have pos : 0 < next := by
      have one := Word.raise_one_pos max
      rw [UInt64.lt_iff_toNat_lt] at one ⊢
      rw [UInt64.le_iff_toNat_le] at below
      omega
    obtain ⟨id, used, same⟩ := reached pos
    have reach := Word.raise_mono 1 (bound id used)
    rw [same] at reach
    exact UInt64.le_antisymm below reach

theorem lastLinkIdAfter_again (last : Option LinkId) (next : LinkId) :
    lastLinkIdAfter (lastLinkIdAfter last next) next = lastLinkIdAfter last next := by
  unfold lastLinkIdAfter
  by_cases pos : 0 < next
  · rw [if_pos pos, if_pos pos, Option.getD_some, Option.some.injEq, ← UInt64.toNat_inj]
    simp only [Word.toNat_max]
    omega
  · rw [if_neg pos, if_neg pos]

theorem raise_lastLinkIdAfter_le (last : Option LinkId) (next : LinkId)
    (above : ∀ id ∈ last, id.raise 1 ≤ next) : ∀ id ∈ lastLinkIdAfter last next, id.raise 1 ≤ next := by
  unfold lastLinkIdAfter
  by_cases pos : 0 < next
  · rw [if_pos pos]
    intro id same
    cases same
    have old : (last.getD 0).raise 1 ≤ next := by
      cases last with
      | some id => exact above id rfl
      | none =>
        have zero : (0 : Word).toNat = 0 := rfl
        rw [UInt64.lt_iff_toNat_lt] at pos
        rw [Option.getD_none, Word.raise_le_iff]
        omega
    rw [Word.raise_le_iff] at old
    have new := Word.raise_lower_of_pos pos
    rw [← UInt64.toNat_inj, Word.toNat_raise] at new
    rw [Word.raise_le_iff, Word.toNat_max]
    omega
  · rw [if_neg pos]
    exact above

theorem lastLinkIdAfter_reaches (last : Option LinkId) (next : LinkId) (pos : 0 < next)
    (above : ∀ id ∈ last, id.raise 1 ≤ next) : ∃ id ∈ lastLinkIdAfter last next, id.raise 1 = next := by
  have some : lastLinkIdAfter last next = some (max (last.getD 0) (next.lower 1)) := by
    unfold lastLinkIdAfter
    rw [if_pos pos]
  refine ⟨_, some, ?_⟩
  apply UInt64.le_antisymm (raise_lastLinkIdAfter_le last next above _ some)
  have reach := Word.raise_mono 1 (Word.le_max_right (last.getD 0) (next.lower 1))
  rwa [Word.raise_lower_of_pos pos] at reach

/-- The counter is found again from the ids that it was raised above. -/
theorem nextLinkId_of_counter (doc : Document) (last : Option LinkId) (next : LinkId)
    (ids : ∀ id ∈ doc.linkIds, id.raise 1 ≤ next) (above : ∀ id ∈ last, id.raise 1 ≤ next)
    (stored : doc.lastLinkId = lastLinkIdAfter last next) : doc.nextLinkId = next := by
  apply nextLinkId_eq
  · intro id used
    rw [usedIds, List.mem_append] at used
    rcases used with used | same
    · exact ids id used
    · rw [stored] at same
      exact raise_lastLinkIdAfter_le last next above id (Option.mem_toList.1 same)
  · intro pos
    obtain ⟨id, same, reach⟩ := lastLinkIdAfter_reaches last next pos above
    rw [← stored] at same
    exact ⟨id, List.mem_append_right _ (Option.mem_toList.2 same), reach⟩

end Document
end Patchbay
