import Wayfinding.Binary.Single
import Wayfinding.Decimal.Shortest
import Wayfinding.Bounded
import Wayfinding.Json.Value

/-!
Numbers of the program as JSON numbers. An integer is a number without a point or an exponent. A
single precision number is written in its shortest form; one that is read passes through double
precision unless it is an integer of at most 64 bits.
-/

namespace Wayfinding.Json

/-- The number is written without a point and without an exponent. -/
def Number.integral (n : Number) : Bool :=
  n.fraction.isEmpty && n.exponent.isNone

/-- The integer of at most 32 bits that a number stands for. Zero may not have a minus sign. -/
def Number.toInt32? (n : Number) : Option Int :=
  let size : Int := Decimal.ofDigits 0 n.whole
  if n.integral && !(n.negative && size == 0) then int32? (if n.negative then -size else size)
  else none

/-- Reads digits after those worth `acc` while the number stays below `2^64`, and answers with the
number and how many digits it read.
-/
def absorb (acc : Nat) : List Nat → Nat × Nat
  | [] => (acc, 0)
  | d :: ds =>
      if acc * 10 + d < 18446744073709551616 then
        let (value, count) := absorb (acc * 10 + d) ds
        (value, count + 1)
      else (acc, 0)

/-- A double precision number times `n / d`, rounded. -/
def scaleDouble? (x : Binary.Dyadic) (n d : Binary.Dyadic) : Option Binary.Dyadic :=
  Binary.Format.double.round? (x.mantissa * n.mantissa) d.mantissa
    (x.exponent + n.exponent - d.exponent)

/-- The power of ten in double precision; the exponent is at most 308. -/
def powerOfTen (k : Nat) : Binary.Dyadic :=
  (Binary.Format.double.round? (Nat.pow 10 k) 1 0).getD ⟨0, 0⟩

/-- The number one. -/
def one : Binary.Dyadic :=
  ⟨1, 0⟩

/-- The double precision number `significand · 10^exponent`, by one multiplication or division by a
power of ten. An exponent below all powers of ten is taken in two divisions, and whatever remains
below is zero. A number above the greatest is refused.
-/
def decimalToDouble? (significand : Nat) (exponent : Int) : Option Binary.Dyadic := do
  let x ← Binary.Format.double.round? significand 1 0
  if significand = 0 then return x
  else if 308 < exponent then none
  else if 0 ≤ exponent then scaleDouble? x (powerOfTen exponent.toNat) one
  else if -308 ≤ exponent then scaleDouble? x one (powerOfTen (-exponent).toNat)
  else if -616 ≤ exponent then do
    let y ← scaleDouble? x one (powerOfTen 308)
    scaleDouble? y one (powerOfTen (-exponent - 308).toNat)
  else return ⟨0, 0⟩

/-- A dyadic number rounded to single precision; beyond the greatest it is infinite. -/
def roundToSingle (negative : Bool) (x : Binary.Dyadic) : Float32 :=
  match Binary.Format.single.round? x.mantissa 1 x.exponent with
  | some size => Binary.ofDyadic negative size
  | none => Binary.infinity negative

/-- The single precision number that a number stands for. Digits beyond 64 bits count as zeros
before the point and are left out after it.
-/
def Number.toSingle? (n : Number) : Option Float32 :=
  let (whole, taken) := absorb 0 n.whole
  let dropped := n.whole.length - taken
  let limit := if n.negative then 9223372036854775808 else 18446744073709551615
  if n.integral && dropped == 0 && decide (whole ≤ limit ∧ (n.negative → whole ≠ 0)) then
    some (roundToSingle n.negative ⟨whole, 0⟩)
  else
    let (significand, places) := absorb whole n.fraction
    let exponent := (dropped : Int) - places + n.exponent.getD 0
    (decimalToDouble? significand exponent).map (roundToSingle n.negative)

/-- A decimal as a number. From `10^-6` up to below `10^13` there is no exponent but always a digit
after the point.
-/
def Number.ofDecimal (negative : Bool) (d : Decimal.Scaled) : Number :=
  let ds := Decimal.natDigits d.digits
  let point := (ds.length : Int) + d.exponent
  if 0 ≤ d.exponent ∧ point ≤ 13 then
    ⟨negative, ds ++ List.replicate d.exponent.toNat 0, [0], none⟩
  else if 0 < point ∧ point ≤ 13 then
    ⟨negative, ds.take point.toNat, ds.drop point.toNat, none⟩
  else if -6 < point ∧ point ≤ 0 then
    ⟨negative, [0], List.replicate (-point).toNat 0 ++ ds, none⟩
  else ⟨negative, ds.take 1, ds.drop 1, some (point - 1)⟩

/-- A single precision number as a value: in its shortest form if it is finite, and null if not. -/
def Value.ofSingle (x : Float32) : Value :=
  match Binary.value x with
  | .finite negative size =>
      if size.mantissa = 0 then .number ⟨negative, [0], [0], none⟩
      else .number (Number.ofDecimal negative (Decimal.shortest size))
  | _ => .null

/-- An integer of at most 32 bits. -/
def int32Value? : Value → Option Int
  | .number n => n.toInt32?
  | _ => none

/-- A single precision number. -/
def singleValue? : Value → Option Float32
  | .number n => n.toSingle?
  | _ => none

end Wayfinding.Json
