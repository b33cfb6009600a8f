import Patchbay.Widget

/-!
Seeds: how a seed changes after a run that used it, and where random words come from.
-/
set_option autoImplicit false

namespace Patchbay

/-- A source of random words, of which `used` have been taken. -/
structure WordSource where
  words : Nat → UInt64
  used : Nat

namespace WordSource

/-- Yields the words over and over again; no words count as zeros. -/
def cycle (words : List UInt64) : WordSource where
  words n := (words[n % words.length]?).getD 0
  used := 0

def zeros : WordSource := cycle []

def next (source : WordSource) : UInt64 × WordSource :=
  (source.words source.used, { source with used := source.used + 1 })

/-- The high and low words of a product. -/
def wideProduct (a b : UInt64) : Nat × Nat :=
  let product := a.toNat * b.toNat
  (product / UInt64.size, product % UInt64.size)

/-- Draws from `low` to `high`, both included: the high word of a random word times the number of
values, with a second word to settle a carry. The full range takes a word as it is. -/
def draw (source : WordSource) (low high : Int64) : Int64 × WordSource :=
  let count := (high.toInt - low.toInt + 1).toNat % UInt64.size
  let (word, source) := source.next
  if count = 0 then (word.toInt64, source)
  else
    let (upper, lower) := wideProduct word (UInt64.ofNat count)
    if UInt64.size - count < lower then
      let (second, source) := source.next
      let carry := (wideProduct second (UInt64.ofNat count)).1
      let upper := if UInt64.size ≤ lower + carry then upper + 1 else upper
      (Int64.ofInt (low.toInt + upper), source)
    else (Int64.ofInt (low.toInt + upper), source)

end WordSource

/-- What happens to a seed after a run. -/
inductive SeedControl where
  | fixed
  | increment
  | decrement
  | randomize
deriving DecidableEq

namespace SeedControl

/-- Reads a stored control; older documents store a truth value. -/
def ofJson : Json → SeedControl
  | .bool true => .randomize
  | .text "increment" => .increment
  | .text "decrement" => .decrement
  | .text "randomize" => .randomize
  | _ => .fixed

def name : SeedControl → String
  | .fixed => "fixed"
  | .increment => "increment"
  | .decrement => "decrement"
  | .randomize => "randomize"

/-- The next seed. A step never leaves the signed 64-bit range, going up it stops at the upper bound and
going down at the lower one; an upper bound below the lower one counts as equal to it. -/
def apply (control : SeedControl) (current low high : Int64) (source : WordSource) :
    Int64 × WordSource :=
  let high := if high < low then low else high
  match control with
  | .fixed => (current, source)
  | .increment => (Int64.ofInt (min (current.toInt + 1) high.toInt), source)
  | .decrement => (Int64.ofInt (max (current.toInt - 1) low.toInt), source)
  | .randomize => source.draw low high

end SeedControl

/-- The largest seed that is drawn or stepped to. -/
def largestSeed : Int64 := 1125899906842624

/-- The bounds of a seed, as far as its input declares them. -/
def WidgetSpec.seedBounds (spec : WidgetSpec) : Int64 × Int64 :=
  let low := (spec.input.bind (·.intOption? "min")).getD 0
  let high := (spec.input.bind (·.intOption? "max")).getD largestSeed
  (low, if largestSeed < high then largestSeed else high)

/-- Widget values on the way from one run to the next. -/
structure SeedPass where
  values : List Json
  source : WordSource
  changed : Bool

namespace SeedPass

/-- Applies the control at a place to the seed one place before it. -/
def step (layout : List WidgetSpec) (pass : SeedPass) (seedIndex : Nat) : SeedPass :=
  match layout[seedIndex]?, pass.values[seedIndex + 1]?, (pass.values[seedIndex]?).bind Json.int64? with
  | some spec, some control, some current =>
    let (low, high) := spec.seedBounds
    let (next, source) := (SeedControl.ofJson control).apply current low high pass.source
    if next = current then { pass with source := source }
    else ⟨pass.values.set seedIndex (.ofInt64 next), source, true⟩
  | _, _, _ => pass

/-- The places of the seeds, from left to right: each directly precedes a control. -/
def seedIndices (layout : List WidgetSpec) : List Nat :=
  (List.range layout.length).filter fun index =>
    (layout[index + 1]?).any (·.name == controlName)

end SeedPass

/-- Applies every control of a node. Says whether a value changed. -/
def Node.advanceSeeds (node : Node) (op : Operation) (r : Registry) (source : WordSource) :
    Node × Bool × WordSource :=
  match node.widgets with
  | none => (node, false, source)
  | some values =>
    let layout := op.layout r
    let pass := (SeedPass.seedIndices layout).foldl (SeedPass.step layout) ⟨values, source, false⟩
    ({ node with widgets := some pass.values }, pass.changed, pass.source)

end Patchbay
