/-!
Decimal text of binary floats. Writing takes the fewest digits that read back as the same float, and of
those the nearest; reading scales a 64-bit significand by powers of ten in float arithmetic.
-/
set_option autoImplicit false

namespace Patchbay.Decimal

/-- The number `digits · 10 ^ exponent`. -/
structure Scaled where
  digits : Nat
  exponent : Int
deriving DecidableEq

/-- A finite float as `mantissa · 2 ^ exponent`; `narrow` marks the floats whose lower neighbour is
only half as far away as the upper one. -/
structure Binary where
  negative : Bool
  mantissa : Nat
  exponent : Int
  narrow : Bool
deriving DecidableEq

def Binary.ofFloat (value : Float) : Binary :=
  let bits := value.toBits.toNat
  let fraction := bits % (1 <<< 52)
  let biased : Nat := bits / (1 <<< 52) % (1 <<< 11)
  let negative := bits / (1 <<< 63) == 1
  if biased = 0 then ⟨negative, fraction, -1074, false⟩
  else ⟨negative, (1 <<< 52) + fraction, (biased : Int) - 1075, fraction == 0 && biased != 1⟩

/-- The reals that round to a float, as fractions over one denominator, with the float between. -/
structure Interval where
  low : Nat
  value : Nat
  high : Nat
  denominator : Nat
  closed : Bool

def Binary.interval (b : Binary) : Interval :=
  let unit := b.exponent - 2
  let scale := 1 <<< unit.toNat
  let down := if b.narrow then 1 else 2
  ⟨(4 * b.mantissa - down) * scale, 4 * b.mantissa * scale, (4 * b.mantissa + 2) * scale,
    1 <<< (-unit).toNat, b.mantissa % 2 == 0⟩

/-- The multiple of `10 ^ exponent` inside the interval that is nearest to the float: one of its two
neighbours on that grid. An exact tie goes to the even neighbour. -/
def Interval.onGrid (i : Interval) (exponent : Int) : Option Nat :=
  let step := i.denominator * Nat.pow 10 exponent.toNat
  let spread := Nat.pow 10 (-exponent).toNat
  let inside (k : Nat) : Bool :=
    if i.closed then decide (i.low * spread ≤ k * step) && decide (k * step ≤ i.high * spread)
    else decide (i.low * spread < k * step) && decide (k * step < i.high * spread)
  let floor := i.value * spread / step
  let twiceRest := 2 * (i.value * spread % step)
  match inside floor, inside (floor + 1) with
  | true, false => some floor
  | false, true => some (floor + 1)
  | false, false => none
  | true, true =>
    if twiceRest < step then some floor
    else if step < twiceRest then some (floor + 1)
    else some (if floor % 2 = 0 then floor else floor + 1)

/-- Tries the grids from coarse to fine. -/
def Interval.search (i : Interval) : Nat → Int → Option Scaled
  | 0, _ => none
  | tries + 1, exponent =>
    match i.onGrid exponent with
    | some digits => some ⟨digits, exponent⟩
    | none => i.search tries (exponent - 1)

/-- The shortest decimal that reads back as a nonzero float. The first grid is one step coarser than
the float's own size, and seventeen digits always suffice. -/
def Binary.shortest (b : Binary) : Scaled :=
  let size := (Nat.log2 b.mantissa + b.exponent) * 30103 / 100000 + 2
  (b.interval.search 22 size).getD ⟨0, 0⟩

def digitsOf (n : Nat) : List Char := Nat.toDigits 10 n

/-- Numbers from `10 ^ -5` up to below `10 ^ 16` are written out with a point; all others get an
exponent with a sign. A whole number keeps one zero behind the point. -/
def Scaled.render (s : Scaled) : List Char :=
  let ds := digitsOf s.digits
  let size : Int := s.exponent + ds.length - 1
  if size < -5 ∨ 15 < size then
    let sign := if size < 0 then '-' else '+'
    let tail := match ds.drop 1 with
      | [] => []
      | fraction => '.' :: fraction
    ds.take 1 ++ tail ++ ['e', sign] ++ digitsOf size.natAbs
  else if size < 0 then
    ['0', '.'] ++ List.replicate (-size - 1).toNat '0' ++ ds
  else if 0 ≤ s.exponent then
    ds ++ List.replicate s.exponent.toNat '0' ++ ['.', '0']
  else
    let whole := size.toNat + 1
    ds.take whole ++ ['.'] ++ ds.drop whole

/-- The text of a finite float. -/
def render (value : Float) : List Char :=
  let b := Binary.ofFloat value
  let body := if b.mantissa = 0 then ['0', '.', '0'] else b.shortest.render
  if b.negative then '-' :: body else body

/-- No finite float is nearest to a decimal from here on: halfway between the largest float and the next
power of two. -/
def finiteLimit : Nat := (1 <<< 1024) - (1 <<< 970)

/-- The decimal is above all finite floats. Far from the limit the number of digits decides. -/
def Scaled.isHuge (s : Scaled) : Bool :=
  let size : Int := s.exponent + (digitsOf s.digits).length
  if s.digits = 0 ∨ size < 300 then false
  else if 320 < size then true
  else decide (finiteLimit * Nat.pow 10 (-s.exponent).toNat ≤ s.digits * Nat.pow 10 s.exponent.toNat)

/-- The largest power of ten by which one step scales. -/
def widestStep : Nat := 308

def powerOfTen (n : Nat) : Float := Float.ofScientific 1 false n

/-- Divides by `10 ^ n`, at most `widestStep` places at a time. -/
def scaleDown (value : Float) (n : Nat) : Float :=
  if n ≤ widestStep then value / powerOfTen n
  else if value == 0 then value
  else scaleDown (value / powerOfTen widestStep) (n - widestStep)
termination_by n
decreasing_by simp only [widestStep]; omega

/-- The float read for `significand · 10 ^ exponent`, or nothing when that is out of range. -/
def toFloat? (significand : UInt64) (exponent : Int) : Option Float :=
  let value := significand.toFloat
  if exponent < 0 then some (scaleDown value exponent.natAbs)
  else if exponent.toNat ≤ widestStep then
    let scaled := value * powerOfTen exponent.toNat
    if scaled.isInf then none else some scaled
  else if value == 0 then some value
  else none

end Patchbay.Decimal
