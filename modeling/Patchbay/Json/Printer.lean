import Patchbay.Json.Value
import Patchbay.Json.Decimal

/-!
JSON text. The compact form has no blanks; the pretty form puts one element on a line and indents by two
spaces. Only quotes, backslashes and control characters are escaped.
-/
set_option autoImplicit false

namespace Patchbay

def Number.render : Number → List Char
  | .natural value => Nat.toDigits 10 value.toNat
  | .negative value => (toString value.toInt).toList
  | .real value => Decimal.render value

namespace Json

def hexDigit (n : Nat) : Char := (Nat.digitChar (n % 16))

def escape (c : Char) : List Char :=
  match c with
  | '"' => ['\\', '"']
  | '\\' => ['\\', '\\']
  | '\x08' => ['\\', 'b']
  | '\x0c' => ['\\', 'f']
  | '\n' => ['\\', 'n']
  | '\r' => ['\\', 'r']
  | '\t' => ['\\', 't']
  | _ =>
    if c.toNat < 0x20 then
      ['\\', 'u', '0', '0', hexDigit (c.toNat / 16), hexDigit c.toNat]
    else [c]

def quote (s : String) : List Char :=
  '"' :: (s.toList.flatMap escape ++ ['"'])

def word : Option Bool → List Char
  | none => ['n', 'u', 'l', 'l']
  | some true => ['t', 'r', 'u', 'e']
  | some false => ['f', 'a', 'l', 's', 'e']

mutual
def compactChars : Json → List Char
  | .null => word none
  | .bool value => word (some value)
  | .number value => value.render
  | .text value => quote value
  | .array [] => ['[', ']']
  | .array (item :: rest) => '[' :: (compactChars item ++ compactItems rest)
  | .object [] => ['{', '}']
  | .object ((key, value) :: rest) =>
    '{' :: (quote key ++ ':' :: (compactChars value ++ compactMembers rest))

def compactItems : List Json → List Char
  | [] => [']']
  | item :: rest => ',' :: (compactChars item ++ compactItems rest)

def compactMembers : List (String × Json) → List Char
  | [] => ['}']
  | (key, value) :: rest =>
    ',' :: (quote key ++ ':' :: (compactChars value ++ compactMembers rest))
end

def newline (depth : Nat) : List Char := '\n' :: List.replicate (2 * depth) ' '

mutual
def prettyChars (depth : Nat) : Json → List Char
  | .null => word none
  | .bool value => word (some value)
  | .number value => value.render
  | .text value => quote value
  | .array [] => ['[', ']']
  | .array (item :: rest) =>
    '[' :: (newline (depth + 1) ++ prettyChars (depth + 1) item ++ prettyItems depth rest)
  | .object [] => ['{', '}']
  | .object ((key, value) :: rest) =>
    '{' :: (newline (depth + 1) ++ quote key ++ [':', ' '] ++ prettyChars (depth + 1) value ++
      prettyMembers depth rest)

def prettyItems (depth : Nat) : List Json → List Char
  | [] => newline depth ++ [']']
  | item :: rest =>
    ',' :: (newline (depth + 1) ++ prettyChars (depth + 1) item ++ prettyItems depth rest)

def prettyMembers (depth : Nat) : List (String × Json) → List Char
  | [] => newline depth ++ ['}']
  | (key, value) :: rest =>
    ',' :: (newline (depth + 1) ++ quote key ++ [':', ' '] ++ prettyChars (depth + 1) value ++
      prettyMembers depth rest)
end

def compact (value : Json) : String := String.ofList (compactChars value)
def pretty (value : Json) : String := String.ofList (prettyChars 0 value)

end Json
end Patchbay
