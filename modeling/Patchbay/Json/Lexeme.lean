import Patchbay.Json.Problem

/-!
Numbers, strings and fixed words of JSON text. A lexeme can be well-formed and still denote nothing (a
lone surrogate, a number beyond the floats); one who reads it reports that, one who skips it does not.
-/
set_option autoImplicit false

namespace Patchbay

/-- The text that is still to be read and the byte offset at which it starts. -/
structure Cursor where
  offset : Nat
  chars : List Char
deriving DecidableEq

/-- What a lexeme gives. After `broken` the text cannot be followed any further, and reading and
skipping may name different reasons. -/
inductive Lexeme (α : Type) where
  | found (value : α) (rest : Cursor)
  | flawed (trouble : Trouble) (rest : Cursor)
  | broken (reading skipping : Trouble)

namespace Cursor

def ofText (text : String) : Cursor := ⟨0, text.toList⟩

def isBlank (c : Char) : Bool := c = ' ' || c = '\n' || c = '\t' || c = '\r'

def blanksFrom (offset : Nat) : List Char → Cursor
  | [] => ⟨offset, []⟩
  | c :: rest => if isBlank c then blanksFrom (offset + 1) rest else ⟨offset, c :: rest⟩

def skipBlanks (c : Cursor) : Cursor := blanksFrom c.offset c.chars

/-- One past the byte under the cursor, or the end of the text. -/
def behind (c : Cursor) : Nat := if c.chars.isEmpty then c.offset else c.offset + 1

/-- Reports a problem with the byte under the cursor. -/
def report (c : Cursor) (problem : Problem) : Trouble := .located problem c.behind

def peek? (c : Cursor) : Option Char := c.chars.head?

def advance (c : Cursor) : Cursor := ⟨c.offset + 1, c.chars.drop 1⟩

/-- The rest of a fixed word. -/
def scanWord (offset : Nat) : List Char → List Char → Except Trouble Cursor
  | [], chars => .ok ⟨offset, chars⟩
  | _ :: _, [] => .error (.located .endInValue offset)
  | e :: expected, c :: rest =>
    if c = e then scanWord (offset + 1) expected rest
    else .error (.located .expectedWord (offset + 1))

end Cursor

/-! ### Strings -/

namespace Quotation

def plainEscape : Char → Option Char
  | '"' => some '"'
  | '\\' => some '\\'
  | '/' => some '/'
  | 'b' => some '\x08'
  | 'f' => some '\x0c'
  | 'n' => some '\n'
  | 'r' => some '\r'
  | 't' => some '\t'
  | _ => none

def hexValue (c : Char) : Option Nat :=
  if '0' ≤ c && c ≤ '9' then some (c.toNat - 48)
  else if 'a' ≤ c && c ≤ 'f' then some (c.toNat - 87)
  else if 'A' ≤ c && c ≤ 'F' then some (c.toNat - 55)
  else none

/-- The code unit that four hexadecimal digits denote. -/
def unit (a b c d : Char) : Option Nat := do
  return (((← hexValue a) * 16 + (← hexValue b)) * 16 + (← hexValue c)) * 16 + (← hexValue d)

def isLeading (n : Nat) : Bool := 0xD800 ≤ n && n ≤ 0xDBFF
def isTrailing (n : Nat) : Bool := 0xDC00 ≤ n && n ≤ 0xDFFF

def joinPair (leading trailing : Nat) : Char :=
  Char.ofNat ((leading - 0xD800) * 0x400 + (trailing - 0xDC00) + 0x10000)

def byteSize (chars : List Char) : Nat := chars.foldl (fun size c => size + c.utf8Size) 0

/-- Four digits were wanted at `offset` and fewer than four characters are left. -/
def shortUnit (offset : Nat) (rest : List Char) : Trouble :=
  if byteSize rest < 4 then .located .endInString (offset + byteSize rest)
  else .located .invalidEscape (offset + 4)

/-- A leading surrogate ended at `offset` and no second escape of four digits follows. -/
def unpaired (offset : Nat) : List Char → Trouble
  | [] => .located .endInString offset
  | ['\\'] => .located .endInString (offset + 1)
  | '\\' :: 'u' :: rest => shortUnit (offset + 2) rest
  | '\\' :: _ => .located .endOfSurrogatePair (offset + 2)
  | _ => .located .endOfSurrogatePair (offset + 1)

/-- Reads up to the closing quote; `taken` holds the characters so far, last one first. -/
def read (offset : Nat) (taken : List Char) : List Char → Except Trouble (List Char × Cursor)
  | [] => .error (.located .endInString offset)
  | '"' :: rest => .ok (taken.reverse, ⟨offset + 1, rest⟩)
  | ['\\'] => .error (.located .endInString (offset + 1))
  | '\\' :: 'u' :: a :: b :: c :: d :: rest =>
    match unit a b c d with
    | none => .error (.located .invalidEscape (offset + 6))
    | some n =>
      if isTrailing n then .error (.located .loneSurrogate (offset + 6))
      else if isLeading n then
        match rest with
        | '\\' :: 'u' :: e :: f :: g :: h :: more =>
          match unit e f g h with
          | none => .error (.located .invalidEscape (offset + 12))
          | some m =>
            if isTrailing m then read (offset + 12) (joinPair n m :: taken) more
            else .error (.located .loneSurrogate (offset + 12))
        | rest => .error (unpaired (offset + 6) rest)
      else read (offset + 6) (Char.ofNat n :: taken) rest
  | '\\' :: c :: rest =>
    match plainEscape c with
    | some plain => read (offset + 2) (plain :: taken) rest
    | none =>
      if c = 'u' then .error (shortUnit (offset + 2) rest)
      else .error (.located .invalidEscape (offset + 2))
  | c :: rest =>
    if c.toNat < 0x20 then .error (.located .controlCharacter (offset + 1))
    else read (offset + c.utf8Size) (c :: taken) rest

/-- Passes over a string without asking what its escapes denote. -/
def skip (offset : Nat) : List Char → Except Trouble Cursor
  | [] => .error (.located .endInString offset)
  | '"' :: rest => .ok ⟨offset + 1, rest⟩
  | ['\\'] => .error (.located .endInString (offset + 1))
  | '\\' :: 'u' :: a :: b :: c :: d :: rest =>
    match unit a b c d with
    | none => .error (.located .invalidEscape (offset + 6))
    | some _ => skip (offset + 6) rest
  | '\\' :: c :: rest =>
    match plainEscape c with
    | some _ => skip (offset + 2) rest
    | none =>
      if c = 'u' then .error (shortUnit (offset + 2) rest)
      else .error (.located .invalidEscape (offset + 2))
  | c :: rest =>
    if c.toNat < 0x20 then .error (.located .controlCharacter offset)
    else skip (offset + c.utf8Size) rest

/-- The string whose opening quote is just before the cursor. -/
def scan (c : Cursor) : Lexeme String :=
  match read c.offset [] c.chars with
  | .ok (chars, rest) => .found (String.ofList chars) rest
  | .error reading =>
    match skip c.offset c.chars with
    | .ok rest => .flawed reading rest
    | .error skipping => .broken reading skipping

end Quotation

/-! ### Numbers -/

namespace Numeral

def isDigit (c : Char) : Bool := '0' ≤ c && c ≤ '9'
def digitValue (c : Char) : Nat := c.toNat - 48

def largestWord : Nat := UInt64.size - 1

/-- Appends digits to a significand as long as it stays a word; returns it with the number of digits
taken and the digits left over. -/
def accumulate (significand : Nat) : List Char → Nat × Nat × List Char
  | [] => (significand, 0, [])
  | d :: rest =>
    let longer := significand * 10 + digitValue d
    if longer ≤ largestWord then
      let (total, count, left) := accumulate longer rest
      (total, count + 1, left)
    else (significand, 0, d :: rest)

/-- The digits of an exponent. Beyond the range of a signed 32-bit integer it is only known to be
huge, and the number of digits that show it is returned. -/
def exponentValue (value used : Nat) : List Char → Nat ⊕ Nat
  | [] => .inl value
  | d :: rest =>
    let longer := value * 10 + digitValue d
    if longer < 1 <<< 31 then exponentValue longer (used + 1) rest else .inr (used + 1)

/-- The parts of a well-formed number: the digits before the point, behind it, and the exponent with
its sign. -/
structure Parts where
  negative : Bool
  whole : List Char
  fraction : Option (List Char)
  exponent : Option (Bool × List Char)

def signed (negative : Bool) (value : Float) : Float := if negative then -value else value

def clampExponent (e : Int) : Int := max Int32.minValue.toInt (min e Int32.maxValue.toInt)

/-- The number that the parts denote. `start` and `stop` are the offsets of the exponent's digits and of
the end; an overflowing exponent is reported at the digit that makes it so. -/
def Parts.value (p : Parts) (start stop : Nat) : Except Trouble Number :=
  let (significand, _, dropped) := accumulate 0 p.whole
  if p.fraction.isNone && p.exponent.isNone && dropped.isEmpty then
    if !p.negative then .ok (.natural (UInt64.ofNat significand))
    else if 0 < significand && significand ≤ 1 <<< 63 then
      .ok (.negative (Int64.ofInt (-(significand : Int))))
    else .ok (.real (-(UInt64.ofNat significand).toFloat))
  else
    let (significand, taken, _) := accumulate significand (p.fraction.getD [])
    let scale : Int := (dropped.length : Int) - taken
    let finish (exponent : Int) : Except Trouble Number :=
      match Decimal.toFloat? (UInt64.ofNat significand) exponent with
      | some value => .ok (.real (signed p.negative value))
      | none => .error (.located .numberOutOfRange stop)
    match p.exponent with
    | none => finish scale
    | some (down, digits) =>
      match exponentValue 0 0 digits with
      | .inl value => finish (clampExponent (if down then scale - value else scale + value))
      | .inr used =>
        if significand != 0 && !down then .error (.located .numberOutOfRange (start + used))
        else .ok (.real (signed p.negative 0.0))

def takeDigits (c : Cursor) : List Char × Cursor :=
  let digits := c.chars.takeWhile isDigit
  (digits, ⟨c.offset + digits.length, c.chars.drop digits.length⟩)

/-- A digit was wanted under the cursor. -/
def missingDigit (c : Cursor) : Trouble × Trouble :=
  match c.chars with
  | [] => (c.report .endInValue, c.report .invalidNumber)
  | _ => (c.report .invalidNumber, c.report .invalidNumber)

/-- The exponent that may follow the digits of a number. -/
def scanExponent (p : Parts) (c : Cursor) : Lexeme Number :=
  let conclude (p : Parts) (start : Nat) (rest : Cursor) : Lexeme Number :=
    match p.value start rest.offset with
    | .ok value => .found value rest
    | .error trouble => .flawed trouble rest
  if c.peek? = some 'e' || c.peek? = some 'E' then
    let c := c.advance
    let down := c.peek? = some '-'
    let c := if down || c.peek? = some '+' then c.advance else c
    match takeDigits c with
    | ([], _) => .broken (missingDigit c).1 (missingDigit c).2
    | (digits, rest) => conclude { p with exponent := some (down, digits) } c.offset rest
  else conclude p c.offset c

def scanFraction (p : Parts) (c : Cursor) : Lexeme Number :=
  if c.peek? = some '.' then
    match takeDigits c.advance with
    | ([], rest) => .broken (missingDigit rest).1 (missingDigit rest).2
    | (digits, rest) => scanExponent { p with fraction := some digits } rest
  else scanExponent p c

/-- The number under the cursor, which stands on its sign or its first digit. -/
def scan (c : Cursor) : Lexeme Number :=
  let negative := c.peek? = some '-'
  let c := if negative then c.advance else c
  match takeDigits c with
  | ([], _) => .broken (missingDigit c).1 (missingDigit c).2
  | ('0' :: _ :: _, _) => .broken (c.advance.report .invalidNumber) (c.advance.report .invalidNumber)
  | (whole, rest) => scanFraction ⟨negative, whole, none, none⟩ rest

end Numeral
end Patchbay
