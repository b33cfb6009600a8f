import Patchbay.Json.Decimal

/-!
Keys, strings, numbers and dates of TOML text. Each reader takes the characters that belong to it and
returns the rest, or nothing when the text is not well-formed.
-/
set_option autoImplicit false

namespace Patchbay.Toml

abbrev Chars := List Char

def isBlank (c : Char) : Bool := c = ' ' || c = '\t'

def skipBlanks (cs : Chars) : Chars := cs.dropWhile isBlank

/-- Controls other than the tab must not stand in comments and strings. -/
def isControl (c : Char) : Bool := (c.toNat < 0x20 && c != '\t') || c.toNat == 0x7f

/-- Passes a comment; the line break is left. -/
def skipComment : Chars → Option Chars
  | [] => some []
  | '\n' :: rest => some ('\n' :: rest)
  | '\r' :: '\n' :: rest => some ('\n' :: rest)
  | c :: rest => if isControl c then none else skipComment rest

/-- Passes blanks, line breaks and comments. -/
def skipLines : Nat → Chars → Option Chars
  | 0, _ => none
  | fuel + 1, cs =>
    match skipBlanks cs with
    | '\n' :: rest => skipLines fuel rest
    | '\r' :: '\n' :: rest => skipLines fuel rest
    | '#' :: rest => (skipComment rest).bind (skipLines fuel)
    | rest => some rest

/-! ### Strings -/

def hexValue (c : Char) : Option Nat :=
  if '0' ≤ c && c ≤ '9' then some (c.toNat - 48)
  else if 'a' ≤ c && c ≤ 'f' then some (c.toNat - 87)
  else if 'A' ≤ c && c ≤ 'F' then some (c.toNat - 55)
  else none

/-- The character that hexadecimal digits denote. -/
def scalarOf (digits : Chars) : Option Char := do
  let code ← digits.foldlM (fun code c => do return code * 16 + (← hexValue c)) 0
  if code.isValidChar then some (Char.ofNat code) else none

def plainEscape : Char → Option Char
  | 'b' => some '\x08'
  | 't' => some '\t'
  | 'n' => some '\n'
  | 'f' => some '\x0c'
  | 'r' => some '\r'
  | '"' => some '"'
  | '\\' => some '\\'
  | _ => none

/-- The character of an escape, behind its backslash. -/
def readEscape : Chars → Option (Char × Chars)
  | 'u' :: rest =>
    if rest.length < 4 then none else (scalarOf (rest.take 4)).map (·, rest.drop 4)
  | 'U' :: rest =>
    if rest.length < 8 then none else (scalarOf (rest.take 8)).map (·, rest.drop 8)
  | c :: rest => (plainEscape c).map (·, rest)
  | [] => none

/-- The rest of a string in double quotes, on one line. -/
def readBasic : Nat → Chars → Chars → Option (Chars × Chars)
  | 0, _, _ => none
  | _ + 1, _, [] => none
  | _ + 1, taken, '"' :: rest => some (taken.reverse, rest)
  | fuel + 1, taken, '\\' :: rest =>
    (readEscape rest).bind fun (c, rest) => readBasic fuel (c :: taken) rest
  | fuel + 1, taken, c :: rest => if isControl c then none else readBasic fuel (c :: taken) rest

/-- The rest of a string in single quotes, on one line. -/
def readLiteral : Chars → Chars → Option (Chars × Chars)
  | _, [] => none
  | taken, c :: rest =>
    if c = '\x27' then some (taken.reverse, rest)
    else if isControl c then none
    else readLiteral (c :: taken) rest

/-- Passes blanks and line breaks. -/
def skipBreaks : Chars → Chars
  | '\r' :: '\n' :: rest => skipBreaks rest
  | c :: rest => if isBlank c || c = '\n' then skipBreaks rest else c :: rest
  | [] => []

/-- Blanks and line breaks, at least one of them a line break. -/
def skipFolded (cs : Chars) : Option Chars :=
  match skipBlanks cs with
  | '\n' :: rest => some (skipBreaks rest)
  | '\r' :: '\n' :: rest => some (skipBreaks rest)
  | _ => none

/-- The rest of a string in three quotes. Up to two more quotes may stand before the closing ones; with
`escapes`, a backslash at the end of a line takes the blanks that follow. -/
def readLong (quote : Char) (escapes : Bool) : Nat → Chars → Chars → Option (Chars × Chars)
  | 0, _, _ => none
  | _ + 1, _, [] => none
  | fuel + 1, taken, c :: rest =>
    if c = quote then
      let more := rest.takeWhile (· = quote)
      let count := more.length + 1
      if count < 3 then readLong quote escapes fuel (List.replicate count quote ++ taken) (rest.drop more.length)
      else if count ≤ 5 then
        some ((List.replicate (count - 3) quote ++ taken).reverse, rest.drop more.length)
      else none
    else if c = '\\' && escapes then
      match skipFolded rest with
      | some rest => readLong quote escapes fuel taken rest
      | none =>
        (readEscape rest).bind fun (c, rest) => readLong quote escapes fuel (c :: taken) rest
    else if c = '\r' then
      match rest with
      | '\n' :: rest => readLong quote escapes fuel ('\n' :: taken) rest
      | _ => none
    else if isControl c && c != '\n' then none
    else readLong quote escapes fuel (c :: taken) rest

/-- A line break directly behind the opening quotes does not count. -/
def dropFirstBreak : Chars → Chars
  | '\n' :: rest => rest
  | '\r' :: '\n' :: rest => rest
  | rest => rest

def stripLong (quote : Char) : Chars → Option Chars
  | a :: b :: c :: rest => if a = quote && b = quote && c = quote then some rest else none
  | _ => none

/-- A string in any of the four notations. -/
def readString (cs : Chars) : Option (String × Chars) :=
  let text (result : Option (Chars × Chars)) := result.map fun (taken, rest) => (String.ofList taken, rest)
  match stripLong '"' cs, stripLong '\x27' cs with
  | some rest, _ => text (readLong '"' true (rest.length + 1) [] (dropFirstBreak rest))
  | _, some rest => text (readLong '\x27' false (rest.length + 1) [] (dropFirstBreak rest))
  | _, _ =>
    match cs with
    | c :: rest =>
      if c = '"' then text (readBasic (rest.length + 1) [] rest)
      else if c = '\x27' then text (readLiteral [] rest)
      else none
    | [] => none

/-! ### Keys -/

def isBare (c : Char) : Bool := c.isAlphanum || c = '_' || c = '-'

def readSimpleKey (cs : Chars) : Option (String × Chars) :=
  match cs with
  | '"' :: rest => (readBasic (rest.length + 1) [] rest).map fun (key, rest) => (String.ofList key, rest)
  | c :: rest =>
    if c = '\x27' then (readLiteral [] rest).map fun (key, rest) => (String.ofList key, rest)
    else
      let key := cs.takeWhile isBare
      if key.isEmpty then none else some (String.ofList key, cs.drop key.length)
  | [] => none

/-- Keys joined by points, with the blanks behind them. -/
def readKeys : Nat → Chars → Option (List String × Chars)
  | 0, _ => none
  | fuel + 1, cs =>
    match readSimpleKey (skipBlanks cs) with
    | none => none
    | some (key, rest) =>
      match skipBlanks rest with
      | '.' :: rest => (readKeys fuel rest).map fun (keys, rest) => (key :: keys, rest)
      | rest => some ([key], rest)

/-- Values nest less deep than this, and keys have fewer parts. -/
def nestingLimit : Nat := 80

def readPath (cs : Chars) : Option (List String × Chars) :=
  (readKeys (cs.length + 1) cs).filter fun (keys, _) => decide (keys.length < nestingLimit)

/-! ### Numbers, truth values and dates -/

/-- What is written without quotes. Of floats only the kind matters here, of dates their standard text. -/
inductive Bare where
  | integer (value : Int)
  | float
  | boolean (value : Bool)
  | moment (value : String)
deriving DecidableEq

/-- Digits with single underscores between them. -/
def groupedDigits (isDigit : Char → Bool) : Chars → Option Chars
  | [] => none
  | [c] => if isDigit c then some [c] else none
  | c :: '_' :: rest => if isDigit c then (groupedDigits isDigit rest).map (c :: ·) else none
  | c :: rest => if isDigit c then (groupedDigits isDigit rest).map (c :: ·) else none

def isDecimal (c : Char) : Bool := '0' ≤ c && c ≤ '9'

def valueIn (base : Nat) (digits : Chars) : Option Nat :=
  digits.foldlM (fun value c => do
    let digit ← hexValue c
    if digit < base then some (value * base + digit) else none) 0

def inRange (value : Int) : Option Bare :=
  if Int64.minValue.toInt ≤ value && value ≤ Int64.maxValue.toInt then some (.integer value) else none

def digitsIn (base : Nat) (c : Char) : Bool := (hexValue c).any (· < base)

def readBased (base : Nat) (cs : Chars) : Option Bare := do
  inRange (← valueIn base (← groupedDigits (digitsIn base) cs))

/-- Decimal digits; a leading zero stands alone. -/
def wholeDigits (cs : Chars) : Option Chars := do
  let digits ← groupedDigits isDecimal cs
  if digits.length > 1 && digits.head? == some '0' then none else some digits

def stripSign : Chars → Bool × Chars
  | '-' :: rest => (true, rest)
  | '+' :: rest => (false, rest)
  | rest => (false, rest)

def isExponentMark (c : Char) : Bool := c = 'e' || c = 'E'

/-- An exponent behind its mark. -/
def exponentOf (cs : Chars) : Option Int := do
  let (negative, digits) := stripSign cs
  let size ← (groupedDigits isDecimal digits).bind (valueIn 10)
  return if negative then -(size : Int) else size

/-- A number with a fraction, an exponent or both, behind its sign, as `digits · 10 ^ exponent`. -/
def scaledOf (cs : Chars) : Option Decimal.Scaled := do
  let whole := cs.takeWhile fun c => c != '.' && !isExponentMark c
  let wholePart ← wholeDigits whole
  match cs.drop whole.length with
  | '.' :: rest =>
    let fraction := rest.takeWhile fun c => !isExponentMark c
    let fractionPart ← groupedDigits isDecimal fraction
    let exponent ← match rest.drop fraction.length with
      | [] => some 0
      | _ :: exponent => exponentOf exponent
    return ⟨← valueIn 10 (wholePart ++ fractionPart), exponent - fractionPart.length⟩
  | _ :: exponent => return ⟨← valueIn 10 wholePart, ← exponentOf exponent⟩
  | [] => none

/-- A float is finite, or it is below zero. -/
def floatOf (negative : Bool) (digits : Chars) : Option Bare := do
  let scaled ← scaledOf digits
  if scaled.isHuge && !negative then none else some .float

def readDecimal (cs : Chars) : Option Bare :=
  let (negative, digits) := stripSign cs
  match (wholeDigits digits).bind (valueIn 10) with
  | some value => inRange (if negative then -(value : Int) else value)
  | none => floatOf negative digits

def between (low high : Nat) (digits : Chars) : Bool :=
  (valueIn 10 digits).any fun value => low ≤ value && value ≤ high

def daysIn (year month : Nat) : Nat :=
  if month = 2 then
    if (year % 4 = 0 ∧ year % 100 ≠ 0) ∨ year % 400 = 0 then 29 else 28
  else if month = 4 ∨ month = 6 ∨ month = 9 ∨ month = 11 then 30 else 31

def isDate : Chars → Bool
  | [a, b, c, d, '-', e, f, '-', g, h] =>
    match valueIn 10 [a, b, c, d], valueIn 10 [e, f], valueIn 10 [g, h] with
    | some year, some month, some day =>
      1 ≤ month && month ≤ 12 && 1 ≤ day && day ≤ daysIn year month
    | _, _, _ => false
  | _ => false

/-- Nine places of a second count, and zeros at their end are not written. -/
def standardFraction (digits : Chars) : Chars :=
  match ((digits.take 9).reverse.dropWhile (· = '0')).reverse with
  | [] => []
  | kept => '.' :: kept

/-- The standard text of a time of day. -/
def timeOf? : Chars → Option Chars
  | a :: b :: ':' :: c :: d :: ':' :: e :: f :: rest =>
    if between 0 23 [a, b] && between 0 59 [c, d] && between 0 60 [e, f] then
      let clock := [a, b, ':', c, d, ':', e, f]
      match rest with
      | [] => some clock
      | '.' :: fraction =>
        if !fraction.isEmpty && fraction.all isDecimal then some (clock ++ standardFraction fraction)
        else none
      | _ => none
    else none
  | _ => none

/-- The standard text of a zone. -/
def zoneOf? : Chars → Option Chars
  | [c] => if c = 'Z' || c = 'z' then some ['Z'] else none
  | [sign, a, b, ':', c, d] =>
    if (sign = '+' || sign = '-') && between 0 23 [a, b] && between 0 59 [c, d] then
      let sign := if [a, b, c, d].all (· = '0') then '+' else sign
      some [sign, a, b, ':', c, d]
    else none
  | _ => none

/-- A time of day with or without a zone behind it. -/
def zonedTimeOf? (cs : Chars) : Option Chars :=
  (timeOf? cs).or do
    let clock := cs.takeWhile fun c => isDecimal c || c = ':' || c = '.'
    return (← timeOf? clock) ++ (← zoneOf? (cs.drop clock.length))

/-- A date, a time of day, or both with or without a zone, in standard text. -/
def momentOf? (cs : Chars) : Option Chars :=
  if isDate cs then some cs
  else (timeOf? cs).or <|
    match isDate (cs.take 10), cs.drop 10 with
    | true, mark :: time =>
      if mark = 'T' || mark = 't' || mark = ' ' then
        (zonedTimeOf? time).map fun time => cs.take 10 ++ 'T' :: time
      else none
    | _, _ => none

def readBareWord (cs : Chars) : Option Bare :=
  match cs with
  | ['t', 'r', 'u', 'e'] => some (.boolean true)
  | ['f', 'a', 'l', 's', 'e'] => some (.boolean false)
  | '0' :: 'x' :: digits => readBased 16 digits
  | '0' :: 'o' :: digits => readBased 8 digits
  | '0' :: 'b' :: digits => readBased 2 digits
  | _ =>
    let unsigned := (stripSign cs).2
    if unsigned = ['i', 'n', 'f'] || unsigned = ['n', 'a', 'n'] then some .float
    else match momentOf? cs with
    | some text => some (.moment (String.ofList text))
    | none => readDecimal cs

def isWordChar (c : Char) : Bool :=
  c.isAlphanum || c = '_' || c = '-' || c = '+' || c = '.' || c = ':'

/-- A date and a time with one blank between them. -/
def readBrokenMoment (word rest : Chars) : Option (Bare × Chars) :=
  match isDate word, rest with
  | true, ' ' :: more =>
    let time := more.takeWhile isWordChar
    (momentOf? (word ++ ' ' :: time)).map fun text =>
      (.moment (String.ofList text), more.drop time.length)
  | _, _ => none

/-- A value without quotes. -/
def readBare (cs : Chars) : Option (Bare × Chars) :=
  let word := cs.takeWhile isWordChar
  let rest := cs.drop word.length
  (readBrokenMoment word rest).or ((readBareWord word).map (·, rest))

end Patchbay.Toml
