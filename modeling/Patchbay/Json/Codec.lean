import Patchbay.Json.Source
import Patchbay.Json.Printer
import Patchbay.Table

/-!
Typed values in JSON: how each is read from the tree of a text and written as a value. Reading goes
through the tree once, from left to right, and stops at the first trouble. Objects of a fixed shape are
described field by field, once for both directions.
-/
set_option autoImplicit false

namespace Patchbay

/-- How many arrays and objects may be open at a time, and one more. -/
def Source.nestingLimit : Nat := 128

/-- Opens the array or object at `start` with one level of nesting less. -/
def Source.enter {α : Type} (levels start : Nat) (body : Nat → Except Trouble α) :
    Except Trouble α :=
  match levels with
  | rest + 2 => body (rest + 1)
  | _ => .error (.located .nestedTooDeep (start + 1))

def located {α : Type} (offset : Nat) (result : Except Trouble α) : Except Trouble α :=
  result.mapError (Trouble.locate offset)

/-- Why a value is refused where something of another type is wanted. -/
def Source.refuse (wanted : String) : Source → Trouble
  | .null stop => .located (.wrongType .null wanted) stop
  | .bool value stop => .located (.wrongType (.bool value) wanted) stop
  | .number value stop => .located (.wrongType (.number value) wanted) stop
  | .text value stop => .located (.wrongType (.text value) wanted) stop
  | .flawed trouble => trouble
  | .unreadable reading _ => reading
  | .array start _ => .located (.wrongType .array wanted) start
  | .object start _ => .located (.wrongType .object wanted) start

mutual
/-- The value that a tree denotes. -/
def Source.value (levels : Nat) : Source → Except Trouble Json
  | .null _ => .ok .null
  | .bool value _ => .ok (.bool value)
  | .number value _ => .ok (.number value)
  | .text value _ => .ok (.text value)
  | .flawed trouble => .error trouble
  | .unreadable reading _ => .error reading
  | .array start items => .array <$> Source.enter levels start fun levels => items.values levels
  | .object start members =>
    .object <$> Source.enter levels start fun levels => members.values levels []

def Items.values (levels : Nat) : Items → Except Trouble (List Json)
  | .closed _ => .ok []
  | .broken reading _ _ => .error reading
  | .item _ value _ rest => do
    let first ← value.value levels
    let others ← rest.values levels
    return first :: others

def Members.values (levels : Nat) : Members → Fields → Except Trouble Fields
  | .closed _, fields => .ok fields
  | .broken reading _, _ => .error reading
  | .member key _ value _ rest, fields => do
    let key ← key
    let value ← value.value levels
    rest.values levels (fields.put key value)
end

mutual
/-- Passes over a value that nobody wants. -/
def Source.skip : Source → Except Trouble Unit
  | .unreadable _ skipping => .error skipping
  | .array _ items => items.skip
  | .object _ members => members.skip
  | _ => .ok ()

def Items.skip : Items → Except Trouble Unit
  | .closed _ => .ok ()
  | .broken _ skipping _ => .error skipping
  | .item _ value _ rest => do
    value.skip
    rest.skip

def Members.skip : Members → Except Trouble Unit
  | .closed _ => .ok ()
  | .broken _ skipping => .error skipping
  | .member _ _ value _ rest => do
    value.skip
    rest.skip
end

/-- Reads every item alike. -/
def Items.readAll {α : Type} (read : Source → Except Trouble α) : Items → Except Trouble (List α)
  | .closed _ => .ok []
  | .broken reading _ _ => .error reading
  | .item _ value after rest => do
    let first ← located after (read value)
    let others ← rest.readAll read
    return first :: others

/-- Reads the next of a fixed number of items, of which `index` were read before. -/
def Items.readNext {α : Type} (read : Source → Except Trouble α) (index : Nat) (wanted : String) :
    Items → Except Trouble (α × Items)
  | .closed stop => .error (.located (.wrongLength index wanted) stop)
  | .broken reading _ _ => .error reading
  | .item _ value after rest => do
    let first ← located after (read value)
    return (first, rest)

/-- Ends an array from which nothing more is wanted. -/
def Items.finish : Items → Except Trouble Unit
  | .closed _ => .ok ()
  | .broken _ _ ending => .error ending
  | .item surplus _ _ _ => .error surplus

/-- Reads the members from left to right. The key chooses the reader of the value, and may itself be
refused. -/
def Members.readAll {σ : Type} (select : σ → String → Except Trouble (Source → Except Trouble σ))
    (finish : σ → Except Trouble σ) : σ → Members → Except Trouble σ
  | state, .closed stop => located stop (finish state)
  | _, .broken reading _ => .error reading
  | state, .member key afterKey value after rest => do
    let key ← key
    let read ← located afterKey (select state key)
    let next ← located after (read value)
    rest.readAll select finish next

/-- A type that is stored in JSON. `read` is told how many levels of nesting are left. -/
structure Codec (α : Type) where
  read : Nat → Source → Except Trouble α
  write : α → Json

namespace Codec

variable {α β : Type}

/-- Reads a whole text. -/
def ofText (codec : Codec α) (text : String) : Except Trouble α := do
  let (source, surplus) := Source.ofText text
  let value ← codec.read Source.nestingLimit source
  match surplus with
  | none => return value
  | some trouble => .error trouble

/-- Reads a value that is at hand already. -/
def ofJson (codec : Codec α) (value : Json) : Except Trouble α :=
  codec.read Source.nestingLimit (Source.ofJson value)

def bool : Codec Bool where
  read _
    | .bool value _ => .ok value
    | other => .error (other.refuse "a boolean")
  write := .bool

def string : Codec String where
  read _
    | .text value _ => .ok value
    | other => .error (other.refuse "a string")
  write := .text

/-- A natural number no larger than `largest`. -/
def natural (largest : Nat) (wanted : String) : Codec UInt64 where
  read _
    | .number (.natural value) stop =>
      if value.toNat ≤ largest then .ok value
      else .error (.located (.wrongValue (.number (.natural value)) wanted) stop)
    | .number (.negative value) stop =>
      .error (.located (.wrongValue (.number (.negative value)) wanted) stop)
    | other => .error (other.refuse wanted)
  write := Json.ofWord

def linkId : Codec UInt64 := natural (UInt64.size - 1) "u64"
def slot : Codec UInt64 := natural (UInt64.size - 1) "usize"

def int64 : Codec Int64 where
  read _
    | .number (.natural value) stop =>
      match (Number.natural value).int64? with
      | some value => .ok value
      | none => .error (.located (.wrongValue (.number (.natural value)) "i64") stop)
    | .number (.negative value) _ => .ok value
    | other => .error (other.refuse "i64")
  write := Json.ofInt64

/-- Any value, kept as it is. -/
def json : Codec Json where
  read := Source.value
  write := id

/-- Any object, kept as it is. -/
def fields : Codec Fields where
  read levels
    | .object start members => Source.enter levels start fun levels => members.values levels []
    | other => .error (other.refuse "a map")
  write := .object

/-- A value or `null`. -/
def nullable (codec : Codec α) : Codec (Option α) where
  read levels
    | .null _ => .ok none
    | other => some <$> codec.read levels other
  write
    | none => .null
    | some value => codec.write value

def list (codec : Codec α) : Codec (List α) where
  read levels
    | .array start items => Source.enter levels start fun levels => items.readAll (codec.read levels)
    | other => .error (other.refuse "a sequence")
  write values := .array (values.map codec.write)

def pair (first : Codec α) (second : Codec β) (expected wanted : String) : Codec (α × β) where
  read levels
    | .array start items => Source.enter levels start fun levels => do
      let (a, items) ← items.readNext (first.read levels) 0 wanted
      let (b, items) ← items.readNext (second.read levels) 1 wanted
      items.finish
      return (a, b)
    | other => .error (other.refuse expected)
  write value := .array [first.write value.1, second.write value.2]

def table (codec : Codec α) : Codec (Table α) where
  read levels
    | .object start members => Source.enter levels start fun levels =>
      members.readAll (fun table key => .ok fun value => table.insert key <$> codec.read levels value)
        .ok Table.empty
    | other => .error (other.refuse "a map")
  write table := .object (table.entries.map fun e => (e.1, codec.write e.2))

/-- Reads a value of another type first and then accepts or refuses it as a whole. -/
def refine (codec : Codec β) (accept : β → Except String α) (give : α → β) : Codec α where
  read levels source := do
    let value ← codec.read levels source
    (accept value).mapError fun reason => .floating (.refused reason)
  write value := codec.write (give value)

/-- Stores a value in the form of another type. -/
def convert (codec : Codec β) (take : β → α) (give : α → β) : Codec α where
  read levels source := take <$> codec.read levels source
  write value := codec.write (give value)

end Codec

/-! ### Objects of a fixed shape -/

/-- One member of an object: how it changes the value that is being read, and how it is written, if it
is. -/
structure Field (α : Type) where
  name : String
  required : Bool
  read : Nat → Source → α → Except Trouble α
  write : α → Option Json

namespace Field

variable {α β : Type}

def ofCodec (required : Bool) (name : String) (codec : Codec β) (get : α → β)
    (set : α → β → α) : Field α where
  name := name
  required := required
  read levels source value := set value <$> codec.read levels source
  write value := some (codec.write (get value))

/-- A member that must be there. -/
def needed (name : String) (codec : Codec β) (get : α → β) (set : α → β → α) : Field α :=
  ofCodec true name codec get set

/-- A member that keeps its default when it is absent; it is always written. -/
def defaulted (name : String) (codec : Codec β) (get : α → β) (set : α → β → α) : Field α :=
  ofCodec false name codec get set

/-- A member that may be absent or `null`, and is written only if there is a value. -/
def optional (name : String) (codec : Codec β) (get : α → Option β) (set : α → Option β → α) :
    Field α where
  name := name
  required := false
  read levels source value := set value <$> codec.nullable.read levels source
  write value := (get value).map codec.write

/-- A table that is written only if it holds something. -/
def unlessEmpty (name : String) (codec : Codec β) (get : α → Table β)
    (set : α → Table β → α) : Field α where
  name := name
  required := false
  read levels source value := set value <$> codec.table.read levels source
  write value := if (get value).isEmpty then none else some (codec.table.write (get value))

end Field

/-- What becomes of members that no field names. -/
inductive Surplus (α : Type) where
  | ignored
  | kept (get : α → Fields) (set : α → Fields → α)

/-- The shape of an object. A shape that ignores unknown members can also be stored as an array of its
fields. -/
structure Shape (α : Type) where
  title : String
  blank : α
  fields : List (Field α)
  surplus : Surplus α

namespace Shape

variable {α : Type}

/-- A value in the making, and the names of the fields it was given. -/
structure Draft (α : Type) where
  value : α
  seen : List String

def select (shape : Shape α) (levels : Nat) (draft : Draft α) (key : String) :
    Except Trouble (Source → Except Trouble (Draft α)) :=
  match shape.fields.find? (·.name == key) with
  | some field =>
    if key ∈ draft.seen then .error (.floating (.duplicateField key))
    else .ok fun source => do
      let value ← field.read levels source draft.value
      return ⟨value, key :: draft.seen⟩
  | none =>
    match shape.surplus with
    | .ignored => .ok fun source => do
      source.skip
      return draft
    | .kept get set => .ok fun source => do
      let value ← source.value levels
      return { draft with value := set draft.value ((get draft.value).put key value) }

/-- Reports the first required field that was not given. -/
def complete (shape : Shape α) (draft : Draft α) : Except Trouble (Draft α) :=
  match shape.fields.find? fun field => field.required && !draft.seen.contains field.name with
  | some field => .error (.floating (.missingField field.name))
  | none => .ok draft

def countText (n : Nat) : String := if n = 1 then "1 element" else toString n ++ " elements"

def readItems (wanted : String) (levels : Nat) :
    List (Field α) → Nat → α → Items → Except Trouble α
  | [], _, value, items => do
    items.finish
    return value
  | field :: fields, index, value, .closed stop =>
    if field.required then .error (.located (.wrongLength index wanted) stop)
    else readItems wanted levels fields (index + 1) value (.closed stop)
  | _ :: _, _, _, .broken reading _ _ => .error reading
  | field :: fields, index, value, .item _ source after rest => do
    let value ← located after (field.read levels source value)
    readItems wanted levels fields (index + 1) value rest

def read (shape : Shape α) (levels : Nat) (source : Source) : Except Trouble α :=
  match source, shape.surplus with
  | .object start members, _ => Source.enter levels start fun levels =>
    Draft.value <$> members.readAll (shape.select levels) shape.complete ⟨shape.blank, []⟩
  | .array start items, .ignored => Source.enter levels start fun levels =>
    readItems (shape.title ++ " with " ++ countText shape.fields.length) levels shape.fields 0
      shape.blank items
  | other, _ => .error (other.refuse shape.title)

def rest (shape : Shape α) (value : α) : Fields :=
  match shape.surplus with
  | .ignored => []
  | .kept get _ => get value

/-- The fields in their order, then the members that no field names. -/
def write (shape : Shape α) (value : α) : Json :=
  .object (shape.fields.filterMap (fun field => (field.write value).map (field.name, ·)) ++
    shape.rest value)

def codec (shape : Shape α) : Codec α := ⟨shape.read, shape.write⟩

end Shape
end Patchbay
