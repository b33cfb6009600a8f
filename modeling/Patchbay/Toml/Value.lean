import Patchbay.Toml.Scalar

/-!
TOML text as a tree of values. A table is written in pieces; what made it decides which further pieces may
add to it.
-/
set_option autoImplicit false

namespace Patchbay

/-- How a table came to be: on the way to a header, by a header of its own, or by a key with points. -/
inductive TableOrigin where
  | implicit
  | header
  | dotted
deriving DecidableEq

inductive Toml where
  | text (value : String)
  | integer (value : Int)
  | float
  | boolean (value : Bool)
  | moment (value : String)
  | array (items : List Toml)
  | inline (members : List (String × Toml))
  | table (origin : TableOrigin) (members : List (String × Toml))
  | tables (elements : List (List (String × Toml)))

namespace Toml

abbrev Members := List (String × Toml)

def Bare.toToml : Bare → Toml
  | .integer value => .integer value
  | .float => .float
  | .boolean value => .boolean value
  | .moment value => .moment value

def lookup (key : String) (members : Members) : Option Toml := List.lookup key members

def replace (key : String) (value : Toml) (members : Members) : Members :=
  members.map fun member => if member.1 = key then (key, value) else member

/-- Changes the last element of a list of tables. -/
def modifyLast (change : Members → Option Members) : List Members → Option (List Members)
  | [] => none
  | [last] => (change last).map ([·])
  | element :: rest => (modifyLast change rest).map (element :: ·)

/-- Adds a value under a key with points to a table. Tables that have a header of their own take no such
keys, and the table that takes the value must have been made by such a key. -/
def define (value : Toml) : List String → Members → Option Members
  | [], _ => none
  | [key], members =>
    if (lookup key members).isSome then none else some (members ++ [(key, value)])
  | key :: next :: keys, members =>
    match lookup key members with
    | none => (define value (next :: keys) []).map fun inner =>
      members ++ [(key, .table .dotted inner)]
    | some (.table origin inner) =>
      if origin = .header || (keys.isEmpty && origin != .dotted) then none
      else (define value (next :: keys) inner).map fun inner =>
        replace key (.table origin inner) members
    | some (.tables elements) =>
      if keys.isEmpty then none
      else (modifyLast (define value (next :: keys)) elements).map fun elements =>
        replace key (.tables elements) members
    | some _ => none

/-- Changes the table at a path of headers; tables that are missing on the way are made. -/
def descend (change : Members → Option Members) : List String → Members → Option Members
  | [], members => change members
  | key :: keys, members =>
    match lookup key members with
    | none => (descend change keys []).map fun inner => members ++ [(key, .table .implicit inner)]
    | some (.table origin inner) => (descend change keys inner).map fun inner =>
      replace key (.table origin inner) members
    | some (.tables elements) => (modifyLast (descend change keys) elements).map fun elements =>
      replace key (.tables elements) members
    | some _ => none

def openTable (key : String) (members : Members) : Option Members :=
  match lookup key members with
  | none => some (members ++ [(key, .table .header [])])
  | some (.table .implicit inner) => some (replace key (.table .header inner) members)
  | some _ => none

def openElement (key : String) (members : Members) : Option Members :=
  match lookup key members with
  | none => some (members ++ [(key, .tables [[]])])
  | some (.tables elements) => some (replace key (.tables (elements ++ [[]])) members)
  | some _ => none

/-- A line of a file. -/
inductive Statement where
  | header (path : List String)
  | element (path : List String)
  | assign (path : List String) (value : Toml)

/-- The tables read so far, and the header that further lines belong to. -/
structure Builder where
  root : Members
  current : List String

namespace Builder

def apply (b : Builder) : Statement → Option Builder
  | .header path => do
    return ⟨← descend (openTable (← path.getLast?)) path.dropLast b.root, path⟩
  | .element path => do
    return ⟨← descend (openElement (← path.getLast?)) path.dropLast b.root, path⟩
  | .assign path value => do
    return { b with root := ← descend (define value path) b.current b.root }

end Builder

/-! ### Reading -/

mutual
/-- A value with `room` further levels below it. -/
def readValue : Nat → Nat → Chars → Option (Toml × Chars)
  | 0, _, _ => none
  | fuel + 1, room, cs =>
    match cs, room with
    | '[' :: _, 0 => none
    | '{' :: _, 0 => none
    | '[' :: rest, room + 1 => readItems fuel room [] rest
    | '{' :: rest, room + 1 =>
      match skipBlanks rest with
      | '}' :: rest => some (.inline [], rest)
      | rest => readMembers fuel room [] rest
    | c :: _, _ =>
      if c = '"' || c = '\x27' then (readString cs).map fun (value, rest) => (.text value, rest)
      else (readBare cs).map fun (value, rest) => (value.toToml, rest)
    | [], _ => none

/-- The items of an array, with line breaks and comments between them. -/
def readItems : Nat → Nat → List Toml → Chars → Option (Toml × Chars)
  | 0, _, _, _ => none
  | fuel + 1, room, items, cs => do
    let cs ← skipLines (cs.length + 1) cs
    match cs with
    | ']' :: rest => return (.array items, rest)
    | _ =>
      let (item, rest) ← readValue fuel room cs
      let rest ← skipLines (rest.length + 1) rest
      match rest with
      | ',' :: rest => readItems fuel room (items ++ [item]) rest
      | ']' :: rest => return (.array (items ++ [item]), rest)
      | _ => none

/-- The members of an inline table, all on one line. -/
def readMembers : Nat → Nat → Members → Chars → Option (Toml × Chars)
  | 0, _, _, _ => none
  | fuel + 1, room, members, cs => do
    let (path, rest) ← readPath cs
    match rest with
    | '=' :: rest =>
      let (value, rest) ← readValue fuel room (skipBlanks rest)
      let members ← define value path members
      match skipBlanks rest with
      | ',' :: rest => readMembers fuel room members rest
      | '}' :: rest => return (.inline members, rest)
      | _ => none
    | _ => none
end

/-- Nothing but a comment may follow on a line. -/
def endLine (cs : Chars) : Option Chars :=
  match skipBlanks cs with
  | [] => some []
  | '\n' :: rest => some rest
  | '\r' :: '\n' :: rest => some rest
  | '#' :: rest => skipComment rest
  | _ => none

def readStatement (cs : Chars) : Option (Statement × Chars) :=
  match cs with
  | '[' :: '[' :: rest => do
    let (path, rest) ← readPath rest
    match rest with
    | ']' :: ']' :: rest => return (.element path, rest)
    | _ => none
  | '[' :: rest => do
    let (path, rest) ← readPath rest
    match rest with
    | ']' :: rest => return (.header path, rest)
    | _ => none
  | _ => do
    let (path, rest) ← readPath cs
    match rest with
    | '=' :: rest =>
      let (value, rest) ← readValue (rest.length + 1) (nestingLimit - 1) (skipBlanks rest)
      return (.assign path value, rest)
    | _ => none

def readLines : Nat → Builder → Chars → Option Members
  | 0, _, _ => none
  | fuel + 1, b, cs => do
    let cs ← skipLines (cs.length + 1) cs
    if cs.isEmpty then return b.root
    else
      let (statement, rest) ← readStatement cs
      let rest ← endLine rest
      readLines fuel (← b.apply statement) rest

/-- A byte order mark at the start of a text is no part of it. -/
def dropMark : Chars → Chars
  | '\ufeff' :: rest => rest
  | rest => rest

/-- The members of the table that a file makes. -/
def ofText? (text : String) : Option Members :=
  readLines (text.length + 2) ⟨[], []⟩ (dropMark text.toList)

/-- The key under which a date holds its text where a table is asked for. -/
def momentKey : String := "$__toml_private_datetime"

def members? : Toml → Option Members
  | .inline members => some members
  | .table _ members => some members
  | .moment value => some [(momentKey, .text value)]
  | _ => none

def text? : Toml → Option String
  | .text value => some value
  | _ => none

def natural? : Toml → Option UInt64
  | .integer value => if 0 ≤ value then some (UInt64.ofNat value.toNat) else none
  | _ => none

def items? : Toml → Option (List Toml)
  | .array items => some items
  | .tables elements => some (elements.map (.table .header ·))
  | _ => none

end Toml
end Patchbay
