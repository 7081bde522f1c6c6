import Wayfinding.Binary.Single

/-!
The shortest decimal that reads back as a given single precision number, and of the shortest
ones the nearest.
-/

namespace Wayfinding.Decimal

/-- The positive number `digits · 10^exponent`. -/
structure Scaled where
  digits : Nat
  exponent : Int
deriving DecidableEq

/-- A fraction equal to `n / d · 10^shift`. -/
def scaleFraction (n d : Nat) (shift : Int) : Nat × Nat :=
  (n * Nat.pow 10 shift.toNat, d * Nat.pow 10 (-shift).toNat)

/-- The numbers that round to one positive single precision number: from `low / den` to
`high / den` around `mid / den`, the ends included when `closed` holds.
-/
structure Interval where
  low : Nat
  mid : Nat
  high : Nat
  den : Nat
  closed : Bool

/-- The interval of the numbers that round to a size of the format. It reaches half a unit to
either side, but only a quarter below the least mantissa of an exponent that is not the least.
-/
def Interval.ofDyadic (size : Binary.Dyadic) : Interval :=
  let below := if size.mantissa = 8388608 ∧ -149 < size.exponent then 1 else 2
  let scale := Nat.pow 2 (size.exponent - 2).toNat
  let m := 4 * size.mantissa
  ⟨(m - below) * scale, m * scale, (m + 2) * scale, Nat.pow 2 (2 - size.exponent).toNat,
    size.mantissa % 2 == 0⟩

/-- Whether `n · 10^exponent` lies in the interval. -/
def Interval.holds (i : Interval) (n : Nat) (exponent : Int) : Bool :=
  let (a, b) := scaleFraction n 1 exponent
  let scaled := a * i.den
  if i.closed then decide (i.low * b ≤ scaled ∧ scaled ≤ i.high * b)
  else decide (i.low * b < scaled ∧ scaled < i.high * b)

/-- The multiple of `10^exponent` in the interval that is nearest to its middle, with a tie to
the even one. Only the two neighbours of the middle can be in question.
-/
def Interval.nearest? (i : Interval) (exponent : Int) : Option Nat :=
  let (n, d) := scaleFraction i.mid i.den (-exponent)
  let below := n / d
  let near := Binary.divideToEven n d
  let far := if near = below then below + 1 else below
  if i.holds near exponent then some near
  else if i.holds far exponent then some far
  else none

/-- The greatest exponent of ten, from `exponent` downwards, whose grid meets the interval, with
the grid's point nearest to the middle.
-/
def Interval.coarsest (i : Interval) : Nat → Int → Option Scaled
  | 0, _ => none
  | tries + 1, exponent =>
      match i.nearest? exponent with
      | some n => some ⟨n, exponent⟩
      | none => i.coarsest tries (exponent - 1)

/-- The fewest digits that read back as a positive size of the format. The search starts above
the greatest size and ends below the least one.
-/
def shortest (size : Binary.Dyadic) : Scaled :=
  ((Interval.ofDyadic size).coarsest 90 39).getD ⟨0, 0⟩

end Wayfinding.Decimal
