/-!
A table keyed by strings and listed in the order of its keys. Main statements: `get?_insert` says what
an insertion changes, and `ext_get?` that a table is determined by its look-ups.
-/
set_option autoImplicit false

namespace Patchbay

structure Table (α : Type) where
  entries : List (String × α)
  sorted : entries.Pairwise fun a b => a.1 < b.1
deriving DecidableEq

namespace Table

variable {α β : Type}

def find (key : String) : List (String × α) → Option α
  | [] => none
  | (k, v) :: rest => if key = k then some v else find key rest

def place (key : String) (value : α) : List (String × α) → List (String × α)
  | [] => [(key, value)]
  | (k, v) :: rest =>
    if key < k then (key, value) :: (k, v) :: rest
    else if key = k then (key, value) :: rest
    else (k, v) :: place key value rest

theorem mem_place {key : String} {value : α} {entries : List (String × α)} {e : String × α}
    (member : e ∈ place key value entries) : e = (key, value) ∨ e ∈ entries := by
  induction entries with
  | nil => simpa [place] using member
  | cons head rest ih =>
    obtain ⟨k, v⟩ := head
    simp only [place] at member
    split at member
    · simpa using member
    · split at member
      · simp only [List.mem_cons] at member ⊢
        exact member.imp_right .inr
      · simp only [List.mem_cons] at member ⊢
        rcases member with here | there
        · exact .inr (.inl here)
        · exact (ih there).imp_right .inr

theorem sorted_place (key : String) (value : α) {entries : List (String × α)}
    (sorted : entries.Pairwise fun a b => a.1 < b.1) :
    (place key value entries).Pairwise fun a b => a.1 < b.1 := by
  induction entries with
  | nil => simp [place]
  | cons head rest ih =>
    obtain ⟨k, v⟩ := head
    obtain ⟨above, tail⟩ := List.pairwise_cons.1 sorted
    simp only [place]
    split
    · next less =>
      refine List.pairwise_cons.2 ⟨fun e member => ?_, sorted⟩
      rcases List.mem_cons.1 member with rfl | member
      · exact less
      · exact String.lt_trans less (above e member)
    · split
      · next same => exact List.pairwise_cons.2 ⟨fun e member => same ▸ above e member, tail⟩
      · next notLess notSame =>
        refine List.pairwise_cons.2 ⟨fun e member => ?_, ih tail⟩
        rcases mem_place member with rfl | member
        · exact Decidable.byContradiction fun notAbove =>
            notSame (String.le_antisymm (String.not_lt.1 notAbove) (String.not_lt.1 notLess))
        · exact above e member

theorem find_place (key : String) (value : α) (query : String) (entries : List (String × α)) :
    find query (place key value entries) =
      if query = key then some value else find query entries := by
  induction entries with
  | nil => simp [place, find]
  | cons head rest ih =>
    obtain ⟨k, v⟩ := head
    simp only [place]
    split
    · simp [find]
    · split
      · next same => subst same; simp only [find]; split <;> rfl
      · next notSame =>
        simp only [find, ih]
        grind

def empty : Table α := ⟨[], .nil⟩

instance : EmptyCollection (Table α) := ⟨empty⟩
instance : Inhabited (Table α) := ⟨empty⟩

def get? (t : Table α) (key : String) : Option α := find key t.entries

def contains (t : Table α) (key : String) : Bool := (t.get? key).isSome

/-- Stores a value under a key; the value stored there before is given up. -/
def insert (t : Table α) (key : String) (value : α) : Table α :=
  ⟨place key value t.entries, sorted_place key value t.sorted⟩

/-- Stores the pairs from left to right, so the last of equal keys is kept. -/
def ofList (entries : List (String × α)) : Table α :=
  entries.foldl (fun t e => t.insert e.1 e.2) empty

def insertAll (t : Table α) (entries : List (String × α)) : Table α :=
  entries.foldl (fun t e => t.insert e.1 e.2) t

def keys (t : Table α) : List String := t.entries.map Prod.fst
def values (t : Table α) : List α := t.entries.map Prod.snd
def size (t : Table α) : Nat := t.entries.length
def isEmpty (t : Table α) : Bool := t.entries.isEmpty

def map (f : String → α → β) (t : Table α) : Table β :=
  ⟨t.entries.map fun e => (e.1, f e.1 e.2), List.pairwise_map.2 t.sorted⟩

def filter (keep : String → α → Bool) (t : Table α) : Table α :=
  ⟨t.entries.filter fun e => keep e.1 e.2, t.sorted.filter _⟩

theorem get?_empty (query : String) : (empty : Table α).get? query = none := rfl

theorem get?_insert (t : Table α) (key : String) (value : α) (query : String) :
    (t.insert key value).get? query = if query = key then some value else t.get? query :=
  find_place key value query t.entries

theorem find_map (f : String → α → β) (query : String) (entries : List (String × α)) :
    find query (entries.map fun e => (e.1, f e.1 e.2)) = (find query entries).map (f query) := by
  induction entries with
  | nil => rfl
  | cons head rest ih =>
    simp only [List.map_cons, find, ih]
    split
    · next same => simp [same]
    · rfl

theorem get?_map (f : String → α → β) (t : Table α) (query : String) :
    (t.map f).get? query = (t.get? query).map (f query) :=
  find_map f query t.entries

theorem find_eq_none {key : String} {entries : List (String × α)}
    (above : ∀ e ∈ entries, key < e.1) : find key entries = none := by
  induction entries with
  | nil => rfl
  | cons head rest ih =>
    have notSame : key ≠ head.1 := fun same =>
      String.lt_irrefl key (same ▸ above head List.mem_cons_self)
    simp only [find, notSame, if_false]
    exact ih fun e member => above e (List.mem_cons_of_mem _ member)

theorem mem_of_find {key : String} {value : α} {entries : List (String × α)}
    (found : find key entries = some value) : (key, value) ∈ entries := by
  induction entries with
  | nil => simp [find] at found
  | cons head rest ih =>
    obtain ⟨k, v⟩ := head
    simp only [find] at found
    split at found
    · next same => simp_all
    · exact List.mem_cons_of_mem _ (ih found)

theorem find_filter (keep : String → α → Bool) (query : String) {entries : List (String × α)}
    (sorted : entries.Pairwise fun a b => a.1 < b.1) :
    find query (entries.filter fun e => keep e.1 e.2) = (find query entries).filter (keep query) := by
  induction entries with
  | nil => rfl
  | cons head rest ih =>
    obtain ⟨above, tail⟩ := List.pairwise_cons.1 sorted
    have later := ih tail
    by_cases here : query = head.1
    · subst here
      rw [find_eq_none above] at later
      by_cases kept : keep head.1 head.2 <;> simp [find, Option.filter, kept, later]
    · by_cases kept : keep head.1 head.2 <;> simp [find, here, kept, later]

theorem get?_filter (keep : String → α → Bool) (t : Table α) (query : String) :
    (t.filter keep).get? query = (t.get? query).filter (keep query) :=
  find_filter keep query t.sorted

/-- Of the pairs with one key the last is kept. -/
theorem get?_insertAll (t : Table α) (entries : List (String × α)) (query : String) :
    (t.insertAll entries).get? query =
      ((entries.filter (·.1 == query)).getLast?.map (·.2)).or (t.get? query) := by
  induction entries generalizing t with
  | nil => rfl
  | cons head rest ih =>
    change ((t.insert head.1 head.2).insertAll rest).get? query = _
    rw [ih, get?_insert]
    by_cases here : query = head.1
    · subst here
      cases last : (rest.filter (·.1 == head.1)).getLast? <;> simp [last, List.getLast?_cons]
    · simp [here, Ne.symm here]

theorem entries_ext {a b : List (String × α)}
    (sortedLeft : a.Pairwise fun x y => x.1 < y.1) (sortedRight : b.Pairwise fun x y => x.1 < y.1)
    (same : ∀ key, find key a = find key b) : a = b := by
  induction a generalizing b with
  | nil =>
    cases b with
    | nil => rfl
    | cons head rest => simpa [find] using same head.1
  | cons x xs ih =>
    cases b with
    | nil => simpa [find] using same x.1
    | cons y ys =>
      obtain ⟨aboveX, sortedXs⟩ := List.pairwise_cons.1 sortedLeft
      obtain ⟨aboveY, sortedYs⟩ := List.pairwise_cons.1 sortedRight
      have equalKeys : x.1 = y.1 := Decidable.byContradiction fun differ => by
        have atX := same x.1
        have atY := same y.1
        simp only [find, if_true, differ, Ne.symm differ, if_false] at atX atY
        exact String.lt_irrefl _ (String.lt_trans
          (aboveX _ (mem_of_find atY)) (aboveY _ (mem_of_find atX.symm)))
      have equalHeads : x = y := by
        have atKey := same x.1
        simp only [find, if_true, equalKeys, Option.some.injEq] at atKey
        exact Prod.ext equalKeys atKey
      subst equalHeads
      refine congrArg (x :: ·) (ih sortedXs sortedYs fun key => ?_)
      have atKey := same key
      simp only [find] at atKey
      split at atKey
      · next equal =>
        subst equal
        rw [find_eq_none aboveX, find_eq_none aboveY]
      · exact atKey

/-- Two tables that answer every look-up alike are equal. -/
theorem ext_get? {a b : Table α} (same : ∀ key, a.get? key = b.get? key) : a = b := by
  obtain ⟨ea, sa⟩ := a
  obtain ⟨eb, sb⟩ := b
  have := entries_ext sa sb same
  subst this
  rfl

end Table
end Patchbay
