import Mathlib.Data.List.Induction
import Patchbay.Graph.Schedule
import Patchbay.Primitive

/-!
What the primitives of a graph write, known before anything is written: no primitive is written to, so
the writes can be listed up front. Making them once more changes nothing, since the last write to each
place is the one that stays.
-/
set_option autoImplicit false

namespace Patchbay

/-! ### Storing values in a list -/

-- Reading counts a missing value as `null`, so a list is what is read from it, and its length.
theorem eq_of_getD (a b : List Json) (length : a.length = b.length)
    (same : ∀ i : Nat, (a[i]?).getD .null = (b[i]?).getD .null) : a = b := by
  apply List.ext_getElem length
  intro i insideA insideB
  have read := same i
  rwa [List.getElem?_eq_getElem insideA, List.getElem?_eq_getElem insideB] at read

theorem getD_setValue (values : List Json) (index : Nat) (value : Json) (i : Nat) :
    ((setValue values index value)[i]?).getD .null = if index = i then value else (values[i]?).getD .null := by
  by_cases here : index = i
  · rw [if_pos here, ← here, getElem?_setValue_self]
    rfl
  · rw [if_neg here, setValue, List.getElem?_set_ne here, List.getElem?_append]
    by_cases old : i < values.length
    · rw [if_pos old]
    · rw [if_neg old, List.getElem?_replicate, List.getElem?_eq_none (Nat.le_of_not_lt old)]
      split <;> rfl

theorem length_setValue (values : List Json) (index : Nat) (value : Json) :
    (setValue values index value).length = max values.length (index + 1) := by
  simp only [setValue, List.length_set, List.length_append, List.length_replicate]
  omega

theorem setValue_again (values : List Json) (index : Nat) (first second : Json) :
    setValue (setValue values index first) index second = setValue values index second := by
  apply eq_of_getD
  · simp only [length_setValue]
    omega
  · intro i
    rw [getD_setValue, getD_setValue, getD_setValue]
    by_cases here : index = i
    · rw [if_pos here, if_pos here]
    · rw [if_neg here, if_neg here, if_neg here]

theorem setValue_comm (values : List Json) (i j : Nat) (a b : Json) (apart : i ≠ j) :
    setValue (setValue values i a) j b = setValue (setValue values j b) i a := by
  apply eq_of_getD
  · simp only [length_setValue]
    omega
  · intro k
    rw [getD_setValue, getD_setValue, getD_setValue, getD_setValue]
    by_cases first : i = k
    · rw [if_pos first, if_pos first, if_neg fun second => apart (first.trans second.symm)]
    · rw [if_neg first, if_neg first]

/-! ### Lists of writes -/

-- One value for one place among the widgets of a node.
structure WidgetWrite where
  node : NodeId
  index : Nat
  value : Json

namespace WidgetWrite

def store (write : WidgetWrite) (id : NodeId) (widgets : Option (List Json)) : Option (List Json) :=
  if write.node = id then some (setValue (widgets.getD []) write.index write.value) else widgets

def samePlace (a b : WidgetWrite) : Prop := a.node = b.node ∧ a.index = b.index

theorem store_again (first second : WidgetWrite) (same : first.samePlace second) (id : NodeId)
    (widgets : Option (List Json)) : second.store id (first.store id widgets) = second.store id widgets := by
  unfold store
  rw [same.1, same.2]
  by_cases here : second.node = id
  · rw [if_pos here, if_pos here, if_pos here, Option.getD_some, setValue_again]
  · rw [if_neg here, if_neg here, if_neg here]

theorem store_comm (a b : WidgetWrite) (apart : ¬ a.samePlace b) (id : NodeId) (widgets : Option (List Json)) :
    b.store id (a.store id widgets) = a.store id (b.store id widgets) := by
  unfold store
  by_cases hereA : a.node = id
  · by_cases hereB : b.node = id
    · have index : a.index ≠ b.index := fun same => apart ⟨hereA.trans hereB.symm, same⟩
      rw [if_pos hereA, if_pos hereB, if_pos hereA, if_pos hereB, Option.getD_some, Option.getD_some,
        setValue_comm _ _ _ _ _ index]
    · rw [if_neg hereB, if_neg hereB]
  · rw [if_neg hereA, if_neg hereA]

end WidgetWrite

def storeAll (writes : List WidgetWrite) (id : NodeId) (widgets : Option (List Json)) : Option (List Json) :=
  writes.foldl (fun widgets write => write.store id widgets) widgets

theorem storeAll_append (a b : List WidgetWrite) (id : NodeId) (widgets : Option (List Json)) :
    storeAll (a ++ b) id widgets = storeAll b id (storeAll a id widgets) := List.foldl_append

theorem storeAll_other (writes : List WidgetWrite) (id : NodeId) (widgets : Option (List Json))
    (others : ∀ write ∈ writes, write.node ≠ id) : storeAll writes id widgets = widgets := by
  induction writes generalizing widgets with
  | nil => rfl
  | cons write rest ih =>
    rw [storeAll, List.foldl_cons, WidgetWrite.store, if_neg (others write List.mem_cons_self)]
    exact ih widgets fun later member => others later (List.mem_cons_of_mem _ member)

/-- A write does not show where it is made again after others. -/
theorem storeAll_absorb (write : WidgetWrite) (writes : List WidgetWrite) (id : NodeId)
    (widgets : Option (List Json)) :
    write.store id (storeAll writes id (write.store id widgets)) = write.store id (storeAll writes id widgets) := by
  induction writes generalizing widgets with
  | nil => exact WidgetWrite.store_again write write ⟨rfl, rfl⟩ id widgets
  | cons next rest ih =>
    by_cases same : write.samePlace next
    · have absorbed := WidgetWrite.store_again write next same id widgets
      rw [storeAll, List.foldl_cons, absorbed]
      rfl
    · have swapped := WidgetWrite.store_comm write next same id widgets
      rw [storeAll, List.foldl_cons, swapped]
      exact ih (next.store id widgets)

theorem storeAll_again (writes : List WidgetWrite) (id : NodeId) (widgets : Option (List Json)) :
    storeAll writes id (storeAll writes id widgets) = storeAll writes id widgets := by
  -- The last write absorbs itself, so the induction goes from the end of the list.
  induction writes using List.reverseRecOn with
  | nil => rfl
  | append_singleton writes last ih =>
    have one : ∀ widgets, storeAll [last] id widgets = last.store id widgets := fun _ => rfl
    rw [storeAll_append, storeAll_append, one, one, storeAll_absorb, ih]

end Patchbay
