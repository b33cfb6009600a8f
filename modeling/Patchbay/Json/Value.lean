/-!
JSON values. The members of an object keep the order in which they were first written. Integers that
fit a 64-bit word are kept exactly; every other number is a binary float.
-/
set_option autoImplicit false

namespace Patchbay

inductive Number where
  | natural (value : UInt64)
  | negative (value : Int64)
  | real (value : Float)
deriving DecidableEq

inductive Json where
  | null
  | bool (value : Bool)
  | number (value : Number)
  | text (value : String)
  | array (items : List Json)
  | object (members : List (String × Json))

namespace Number

/-- A signed word as a number; only one below zero takes the signed form. -/
def ofInt64 (value : Int64) : Number :=
  if value < 0 then .negative value else .natural value.toUInt64

def word? : Number → Option UInt64
  | .natural value => some value
  | _ => none

/-- The number as a signed word, if it is an integer in that range. -/
def int64? : Number → Option Int64
  | .natural value => if value.toNat < 1 <<< 63 then some value.toInt64 else none
  | .negative value => some value
  | .real _ => none

end Number

/-- The members of an object, in the order in which their keys were first written. -/
abbrev Fields := List (String × Json)

namespace Fields

def get? (key : String) : Fields → Option Json
  | [] => none
  | (k, v) :: rest => if k = key then some v else get? key rest

/-- Replaces the value of a key where it stands, or adds the key at the end. -/
def put (key : String) (value : Json) : Fields → Fields
  | [] => [(key, value)]
  | (k, v) :: rest => if k = key then (k, value) :: rest else (k, v) :: put key value rest

def putAll (fields : Fields) (more : List (String × Json)) : Fields :=
  more.foldl (fun all member => put member.1 member.2 all) fields

theorem get?_put (key : String) (value : Json) (query : String) (fields : Fields) :
    get? query (put key value fields) = if key = query then some value else get? query fields := by
  induction fields with
  | nil => simp [put, get?]
  | cons head rest ih =>
    simp only [put]
    split
    · next same => subst same; simp only [get?]; split <;> rfl
    · next differ =>
      simp only [get?, ih]
      grind

/-- The keys stay where they are; a new one comes last. -/
theorem keys_put (key : String) (value : Json) (fields : Fields) :
    (put key value fields).map Prod.fst =
      if key ∈ fields.map Prod.fst then fields.map Prod.fst else fields.map Prod.fst ++ [key] := by
  induction fields with
  | nil => simp [put]
  | cons head rest ih =>
    simp only [put]
    split
    · next same => simp [same]
    · next differ =>
      simp only [List.map_cons, ih, List.mem_cons]
      grind

end Fields

namespace Json

def ofNat (n : Nat) : Json := .number (.natural (UInt64.ofNat n))
def ofWord (w : UInt64) : Json := .number (.natural w)
def ofInt64 (value : Int64) : Json := .number (.ofInt64 value)

def bool? : Json → Option Bool
  | .bool value => some value
  | _ => none

def text? : Json → Option String
  | .text value => some value
  | _ => none

def word? : Json → Option UInt64
  | .number value => value.word?
  | _ => none

def int64? : Json → Option Int64
  | .number value => value.int64?
  | _ => none

def array? : Json → Option (List Json)
  | .array items => some items
  | _ => none

def object? : Json → Option Fields
  | .object members => some members
  | _ => none

def isNull : Json → Bool
  | .null => true
  | _ => false

def ofText? : Option String → Json
  | some value => .text value
  | none => .null

mutual
def same : Json → Json → Bool
  | .null, .null => true
  | .bool a, .bool b => a == b
  | .number a, .number b => a == b
  | .text a, .text b => a == b
  | .array a, .array b => sameItems a b
  | .object a, .object b => sameMembers a b
  | _, _ => false

def sameItems : List Json → List Json → Bool
  | [], [] => true
  | a :: as, b :: bs => same a b && sameItems as bs
  | _, _ => false

def sameMembers : List (String × Json) → List (String × Json) → Bool
  | [], [] => true
  | (k, a) :: as, (l, b) :: bs => k == l && same a b && sameMembers as bs
  | _, _ => false
end

mutual
theorem same_iff : ∀ a b : Json, same a b = true ↔ a = b
  | .null, b => by cases b <;> simp [same]
  | .bool _, b => by cases b <;> simp [same]
  | .number _, b => by cases b <;> simp [same]
  | .text _, b => by cases b <;> simp [same]
  | .array items, b => by
    cases b with
    | array others => simp [same, sameItems_iff items others]
    | _ => simp [same]
  | .object members, b => by
    cases b with
    | object others => simp [same, sameMembers_iff members others]
    | _ => simp [same]

theorem sameItems_iff : ∀ a b : List Json, sameItems a b = true ↔ a = b
  | [], b => by cases b <;> simp [sameItems]
  | x :: xs, b => by
    cases b with
    | nil => simp [sameItems]
    | cons y ys => simp [sameItems, same_iff x y, sameItems_iff xs ys]

theorem sameMembers_iff : ∀ a b : List (String × Json), sameMembers a b = true ↔ a = b
  | [], b => by cases b <;> simp [sameMembers]
  | (k, x) :: xs, b => by
    cases b with
    | nil => simp [sameMembers]
    | cons head ys =>
      obtain ⟨l, y⟩ := head
      simp [sameMembers, same_iff x y, sameMembers_iff xs ys, and_assoc]
end

instance : DecidableEq Json := fun a b => decidable_of_iff _ (same_iff a b)

end Json
end Patchbay
