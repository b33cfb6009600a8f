import Mathlib.Data.List.Induction
import Std.Data.String.ToNat
import Patchbay.Node.Basic

/-!
The ids of group members as they are displayed: the id of the instance, a colon, and a position. No two
members share one, and an id of this form tells which instance it belongs to.
-/
set_option autoImplicit false

namespace Patchbay
namespace NodeId

/-- The displayed id starts like those of the members of an instance. -/
def IsUnder (outer id : NodeId) : Prop := (outer.display.toList ++ [':']) <+: id.display.toList

instance (outer id : NodeId) : Decidable (outer.IsUnder id) := inferInstanceAs (Decidable (_ <+: _))

theorem display_member (id : NodeId) (index : Nat) :
    (id.member index).display.toList = id.display.toList ++ [':'] ++ Nat.toDigits 10 index := by
  rw [← Nat.toList_repr]
  change (id.display ++ ":" ++ Nat.repr index).toList = _
  rw [String.toList_append, String.toList_append]
  rfl

theorem colon_notMem_digits (index : Nat) : ':' ∉ Nat.toDigits 10 index := by
  intro member
  have digit := Nat.isDigit_of_mem_toDigits (by decide) (by decide) member
  revert digit
  decide

theorem member_injective (id : NodeId) {i j : Nat} (same : id.member i = id.member j) : i = j := by
  have lists := congrArg (fun id => id.display.toList) same
  simp only [display_member] at lists
  have digits := List.append_cancel_left lists
  rw [← Nat.toList_repr, ← Nat.toList_repr, String.toList_inj] at digits
  exact Nat.repr_injective digits

theorem isUnder_member (id : NodeId) (index : Nat) : id.IsUnder (id.member index) := by
  rw [IsUnder, display_member]
  exact List.prefix_append _ _

theorem not_isUnder_self (id : NodeId) : ¬ id.IsUnder id := by
  intro under
  have length := under.length_le
  rw [List.length_append, List.length_singleton] at length
  omega

theorem member_ne_self (id : NodeId) (index : Nat) : id.member index ≠ id := by
  intro same
  have under := id.isUnder_member index
  rw [same] at under
  exact id.not_isUnder_self under

theorem isUnder_of_member {id other : NodeId} {index : Nat} (under : (id.member index).IsUnder other) :
    id.IsUnder other := by
  rw [IsUnder, display_member, List.append_assoc] at under
  exact (List.prefix_append _ _).trans under

-- A member is under its own instance, and under what that instance is under.
theorem isUnder_of_isUnder_member {outer id : NodeId} {index : Nat} (under : outer.IsUnder (id.member index)) :
    outer.display = id.display ∨ outer.IsUnder id := by
  have own := id.isUnder_member index
  rw [IsUnder] at under own
  rcases List.prefix_or_prefix_of_prefix under own with shorter | longer
  · rcases List.prefix_concat_iff.1 shorter with same | inside
    · left
      exact String.toList_inj.1 (List.append_cancel_right same)
    · exact .inr inside
  · -- What follows the instance is digits, and the colon of the other id would be among them.
    obtain ⟨rest, split⟩ := longer
    rw [← split, display_member] at under
    have digits : rest <+: Nat.toDigits 10 index := (List.prefix_append_right_inj _).1 under
    cases rest using List.reverseRecOn with
    | nil =>
      left
      rw [List.append_nil] at split
      exact String.toList_inj.1 (List.append_cancel_right split.symm)
    | append_singleton front last =>
      rw [← List.append_assoc] at split
      have colon : last = ':' := List.singleton_inj.1 (List.append_inj_right' split rfl)
      have member : ':' ∈ Nat.toDigits 10 index := digits.subset (by simp [colon])
      exact absurd member (colon_notMem_digits index)

theorem not_isUnder_sibling (id : NodeId) (i j : Nat) : ¬ (id.member i).IsUnder (id.member j) := by
  intro under
  rcases isUnder_of_isUnder_member under with same | inside
  · have lists := congrArg (fun s => s.toList.length) same
    simp only [display_member, List.length_append, List.length_singleton] at lists
    omega
  · exact id.not_isUnder_self (isUnder_of_member inside)

theorem IsUnder.length_lt {outer id : NodeId} (under : outer.IsUnder id) :
    outer.display.toList.length < id.display.toList.length := by
  have length := under.length_le
  rw [List.length_append, List.length_singleton] at length
  omega

theorem display_eq_of_member_eq {a b : NodeId} {i j : Nat} (same : a.member i = b.member j) :
    a.display = b.display := by
  have underA := b.isUnder_member j
  have underB := a.isUnder_member i
  rw [← same] at underA
  rw [same] at underB
  rcases isUnder_of_isUnder_member underA with alike | inside
  · exact alike.symm
  · rcases isUnder_of_isUnder_member underB with alike | outside
    · exact alike
    · have less := inside.length_lt
      have more := outside.length_lt
      omega

theorem member_ne_member_member (id : NodeId) (i j k : Nat) : id.member j ≠ (id.member i).member k := by
  intro same
  apply id.not_isUnder_self
  have under := id.isUnder_member i
  rw [IsUnder, ← display_eq_of_member_eq same] at under
  exact under

theorem colon_notMem_number (value : Int64) : ':' ∉ (NodeId.number value).display.toList := by
  change ':' ∉ (Int.repr value.toInt).toList
  cases value.toInt with
  | ofNat n =>
    rw [Int.repr, Nat.toList_repr]
    exact colon_notMem_digits n
  | negSucc n =>
    have digits := colon_notMem_digits (n + 1)
    rw [Int.repr, String.toList_append, Nat.toList_repr]
    simpa using digits

-- Only a name is displayed like a member, so it is that member.
theorem eq_member_of_display {id outer : NodeId} {k : Nat} (same : id.display = (outer.member k).display) :
    id = outer.member k := by
  cases id with
  | name value => exact congrArg NodeId.name same
  | number value =>
    have colon : ':' ∈ (NodeId.number value).display.toList := by
      rw [same, display_member]
      simp
    exact absurd colon (colon_notMem_number value)

end NodeId
end Patchbay
