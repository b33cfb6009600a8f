import Patchbay.Json.Lexeme

/-!
JSON text as a tree whose parts carry byte offsets. Building the tree never fails: where the text breaks
off, the tree holds the trouble that a reader meets on arriving there. A reader that goes through the tree
from left to right thus reports the first trouble in reading order, be it in the text or in its shape.
-/
set_option autoImplicit false

namespace Patchbay

mutual
/-- A value in the text. Scalars carry the offset behind them, arrays and objects the offset of their
opening bracket. -/
inductive Source where
  | null (stop : Nat)
  | bool (value : Bool) (stop : Nat)
  | number (value : Number) (stop : Nat)
  | text (value : String) (stop : Nat)
  | flawed (trouble : Trouble)
  | unreadable (reading skipping : Trouble)
  | array (start : Nat) (items : Items)
  | object (start : Nat) (members : Members)

/-- The rest of an array. An item knows what is wrong with it if the array had to end before it, and the
offset at which trouble without one is reported once the item has been read. -/
inductive Items where
  | closed (stop : Nat)
  | broken (reading skipping ending : Trouble)
  | item (surplus : Trouble) (value : Source) (after : Nat) (rest : Items)

/-- The rest of an object. A member carries the offsets for trouble noticed behind its key and behind its
value. -/
inductive Members where
  | closed (stop : Nat)
  | broken (reading skipping : Trouble)
  | member (key : Except Trouble String) (afterKey : Nat) (value : Source) (after : Nat)
      (rest : Members)
end

namespace Source

/-- Where trouble inside an array is reported: behind the closing bracket, or behind a comma and the
blanks that follow it, if one of the two is next. -/
def afterItem (c : Cursor) : Nat :=
  let c := c.skipBlanks
  match c.peek? with
  | some ']' => c.offset + 1
  | some ',' => c.advance.skipBlanks.offset
  | _ => c.offset

/-- Where trouble inside an object is reported: behind the closing brace if that is next. -/
def afterMember (c : Cursor) : Nat :=
  let c := c.skipBlanks
  match c.peek? with
  | some '}' => c.offset + 1
  | _ => c.offset

def ofWord (expected : List Char) (c : Cursor) (value : Nat → Source) : Source × Cursor :=
  match Cursor.scanWord (c.offset + 1) expected (c.chars.drop 1) with
  | .ok rest => (value rest.offset, rest)
  | .error trouble => (.unreadable trouble trouble, c)

def ofLexeme {α : Type} (value : α → Nat → Source) (c : Cursor) : Lexeme α → Source × Cursor
  | .found found rest => (value found rest.offset, rest)
  | .flawed trouble rest => (.flawed trouble, rest)
  | .broken reading skipping => (.unreadable reading skipping, c)

def unreadableAt (c : Cursor) (problem : Problem) : Source :=
  .unreadable (c.report problem) (c.report problem)

mutual
/-- Reads the value under the cursor, behind any blanks. At most four calls follow each other before a
character is consumed, which bounds the fuel that a text needs. -/
def scan : Nat → Cursor → Source × Cursor
  | 0, c => (unreadableAt c .expectedValue, c)
  | fuel + 1, start =>
    let c := start.skipBlanks
    match c.peek? with
    | none => (unreadableAt c .endInValue, c)
    | some 'n' => ofWord ['u', 'l', 'l'] c .null
    | some 't' => ofWord ['r', 'u', 'e'] c (.bool true)
    | some 'f' => ofWord ['a', 'l', 's', 'e'] c (.bool false)
    | some '"' => ofLexeme .text c (Quotation.scan c.advance)
    | some '[' =>
      let (items, rest) := scanFirstItem fuel c.advance
      (.array c.offset items, rest)
    | some '{' =>
      let (members, rest) := scanFirstMember fuel c.advance
      (.object c.offset members, rest)
    | some first =>
      if first = '-' || Numeral.isDigit first then ofLexeme .number c (Numeral.scan c)
      else (unreadableAt c .expectedValue, c)

def scanFirstItem : Nat → Cursor → Items × Cursor
  | 0, c => (.closed c.offset, c)
  | fuel + 1, start =>
    let c := start.skipBlanks
    match c.peek? with
    | none => (.broken (c.report .endInArray) (c.report .endInArray) (c.report .endInArray), c)
    | some ']' => (.closed (c.offset + 1), c.advance)
    | some _ => scanItem fuel c

/-- Reads an item that begins under the cursor, and all that follow it. -/
def scanItem : Nat → Cursor → Items × Cursor
  | 0, c => (.closed c.offset, c)
  | fuel + 1, c =>
    let (value, behind) := scan fuel c
    let (rest, stop) := scanNextItem fuel behind
    (.item (c.report .trailingCharacters) value (afterItem behind) rest, stop)

def scanNextItem : Nat → Cursor → Items × Cursor
  | 0, c => (.closed c.offset, c)
  | fuel + 1, start =>
    let c := start.skipBlanks
    match c.peek? with
    | none => (.broken (c.report .endInArray) (c.report .endInArray) (c.report .endInArray), c)
    | some ']' => (.closed (c.offset + 1), c.advance)
    | some ',' =>
      let next := c.advance.skipBlanks
      match next.peek? with
      | none =>
        (.broken (next.report .endInValue) (next.report .endInValue)
          (next.report .trailingCharacters), next)
      | some ']' =>
        (.broken (next.report .trailingComma) (next.report .expectedValue)
          (next.report .trailingComma), next)
      | some _ => scanItem fuel next
    | some _ =>
      (.broken (c.report .expectedArrayNext) (c.report .expectedArrayNext)
        (c.report .trailingCharacters), c)

def scanFirstMember : Nat → Cursor → Members × Cursor
  | 0, c => (.closed c.offset, c)
  | fuel + 1, start =>
    let c := start.skipBlanks
    match c.peek? with
    | none => (.broken (c.report .endInObject) (c.report .endInObject), c)
    | some '}' => (.closed (c.offset + 1), c.advance)
    | some '"' => scanMember fuel c.advance
    | some _ => (.broken (c.report .keyNotText) (c.report .keyNotText), c)

/-- Reads a member whose key's opening quote is just before the cursor, and all that follow it. -/
def scanMember : Nat → Cursor → Members × Cursor
  | 0, c => (.closed c.offset, c)
  | fuel + 1, c =>
    match Quotation.scan c with
    | .found key rest => scanMemberValue fuel (.ok key) rest
    | .flawed trouble rest => scanMemberValue fuel (.error trouble) rest
    | .broken reading skipping => (.broken reading skipping, c)

def scanMemberValue : Nat → Except Trouble String → Cursor → Members × Cursor
  | 0, _, c => (.closed c.offset, c)
  | fuel + 1, key, afterKey =>
    let c := afterKey.skipBlanks
    match c.peek? with
    | some ':' =>
      let (value, behind) := scan fuel c.advance
      let (rest, stop) := scanNextMember fuel behind
      (.member key (afterMember afterKey) value (afterMember behind) rest, stop)
    | other =>
      let problem := if other.isNone then Problem.endInObject else .expectedColon
      (.member key (afterMember afterKey) (unreadableAt c problem) c.offset (.closed c.offset), c)

def scanNextMember : Nat → Cursor → Members × Cursor
  | 0, c => (.closed c.offset, c)
  | fuel + 1, start =>
    let c := start.skipBlanks
    match c.peek? with
    | none => (.broken (c.report .endInObject) (c.report .endInObject), c)
    | some '}' => (.closed (c.offset + 1), c.advance)
    | some ',' =>
      let next := c.advance.skipBlanks
      match next.peek? with
      | none => (.broken (next.report .endInValue) (next.report .endInObject), next)
      | some '"' => scanMember fuel next.advance
      | some '}' => (.broken (next.report .trailingComma) (next.report .keyNotText), next)
      | some _ => (.broken (next.report .keyNotText) (next.report .keyNotText), next)
    | some _ => (.broken (c.report .expectedObjectNext) (c.report .expectedObjectNext), c)
end

/-- The text as a tree, and what stands behind the value if that is not only blanks. -/
def ofText (text : String) : Source × Option Trouble :=
  let start := Cursor.ofText text
  let (value, rest) := scan (4 * start.chars.length + 4) start
  let rest := rest.skipBlanks
  (value, if rest.chars.isEmpty then none else some (rest.report .trailingCharacters))

/-! ### The tree of a value that was never text -/

mutual
def ofJson : Json → Source
  | .null => .null 0
  | .bool value => .bool value 0
  | .number value => .number value 0
  | .text value => .text value 0
  | .array items => .array 0 (ofItems items.length items)
  | .object members => .object 0 (ofMembers members)

/-- Items of an array of `size` items; a reader that wants fewer is told the size. -/
def ofItems (size : Nat) : List Json → Items
  | [] => .closed 0
  | item :: rest =>
    .item (.floating (.wrongLength size "fewer elements in array")) (ofJson item) 0
      (ofItems size rest)

def ofMembers : List (String × Json) → Members
  | [] => .closed 0
  | (key, value) :: rest => .member (.ok key) 0 (ofJson value) 0 (ofMembers rest)
end

end Source
end Patchbay
