import Patchbay.Json.Decimal
import Patchbay.Json.Value
import Patchbay.Text.Quoted

/-!
What can be wrong with a JSON text or with the shape of the value in it, where it is noticed, and how
it is worded.
-/
set_option autoImplicit false

namespace Patchbay

/-- What was found where something else was wanted. -/
inductive Found where
  | null
  | bool (value : Bool)
  | number (value : Number)
  | text (value : String)
  | array
  | object
deriving DecidableEq

inductive Problem where
  | endInValue
  | endInArray
  | endInObject
  | endInString
  | expectedValue
  | expectedWord
  | expectedColon
  | expectedArrayNext
  | expectedObjectNext
  | keyNotText
  | trailingComma
  | trailingCharacters
  | invalidNumber
  | numberOutOfRange
  | controlCharacter
  | invalidEscape
  | loneSurrogate
  | endOfSurrogatePair
  | nestedTooDeep
  | wrongType (found : Found) (wanted : String)
  | wrongValue (found : Found) (wanted : String)
  | wrongLength (found : Nat) (wanted : String)
  | missingField (name : String)
  | duplicateField (name : String)
  | refused (reason : String)
deriving DecidableEq

def Found.describe : Found → String
  | .null => "null"
  | .bool true => "boolean `true`"
  | .bool false => "boolean `false`"
  | .number (.real value) => "floating point `" ++ String.ofList (Decimal.render value) ++ "`"
  | .number (.natural value) => "integer `" ++ toString value.toNat ++ "`"
  | .number (.negative value) => "integer `" ++ toString value.toInt ++ "`"
  | .text value => "string " ++ Text.quoted value
  | .array => "sequence"
  | .object => "map"

def Problem.message : Problem → String
  | .endInValue => "EOF while parsing a value"
  | .endInArray => "EOF while parsing a list"
  | .endInObject => "EOF while parsing an object"
  | .endInString => "EOF while parsing a string"
  | .expectedValue => "expected value"
  | .expectedWord => "expected ident"
  | .expectedColon => "expected `:`"
  | .expectedArrayNext => "expected `,` or `]`"
  | .expectedObjectNext => "expected `,` or `\x7d`"
  | .keyNotText => "key must be a string"
  | .trailingComma => "trailing comma"
  | .trailingCharacters => "trailing characters"
  | .invalidNumber => "invalid number"
  | .numberOutOfRange => "number out of range"
  | .controlCharacter => "control character (\\u0000-\\u001F) found while parsing a string"
  | .invalidEscape => "invalid escape"
  | .loneSurrogate => "lone leading surrogate in hex escape"
  | .endOfSurrogatePair => "unexpected end of hex escape"
  | .nestedTooDeep => "recursion limit exceeded"
  | .wrongType found wanted => "invalid type: " ++ found.describe ++ ", expected " ++ wanted
  | .wrongValue found wanted => "invalid value: " ++ found.describe ++ ", expected " ++ wanted
  | .wrongLength found wanted => "invalid length " ++ toString found ++ ", expected " ++ wanted
  | .missingField name => "missing field `" ++ name ++ "`"
  | .duplicateField name => "duplicate field `" ++ name ++ "`"
  | .refused reason => reason

/-- A problem and, once it is known, the byte offset that it is reported at. -/
structure Trouble where
  problem : Problem
  offset : Option Nat
deriving DecidableEq

namespace Trouble

def located (problem : Problem) (offset : Nat) : Trouble := ⟨problem, some offset⟩

/-- A problem of a value that was read completely: whatever contains the value says where. -/
def floating (problem : Problem) : Trouble := ⟨problem, none⟩

/-- Gives an offset to a problem that has none yet. -/
def locate (offset : Nat) (t : Trouble) : Trouble :=
  { t with offset := some (t.offset.getD offset) }

end Trouble

/-- A line, counted from one, and a column, counted in bytes from the last line break. -/
structure Position where
  line : Nat
  column : Nat
deriving DecidableEq

/-- The position of a byte offset. -/
def Position.ofOffset (offset : Nat) : List Char → Position → Position
  | [], p => ⟨p.line, p.column + offset⟩
  | c :: rest, p =>
    if offset < c.utf8Size then ⟨p.line, p.column + offset⟩
    else if c = '\n' then ofOffset (offset - c.utf8Size) rest ⟨p.line + 1, 0⟩
    else ofOffset (offset - c.utf8Size) rest ⟨p.line, p.column + c.utf8Size⟩

def Trouble.position? (t : Trouble) (text : String) : Option Position :=
  t.offset.map fun offset => Position.ofOffset offset text.toList ⟨1, 0⟩

/-- The wording of a problem, with its position when it has one. -/
def Trouble.describe (t : Trouble) (text : String) : String :=
  match t.position? text with
  | some p =>
    t.problem.message ++ " at line " ++ toString p.line ++ " column " ++ toString p.column
  | none => t.problem.message

end Patchbay
