import Wayfinding.Binary.Rounding
import Wayfinding.Bounded

/-!
Single precision numbers as exact values. `value` reads the sign, mantissa and exponent out of
the 32 bits, `ofDyadic` puts them together again, and `floorInt32` is the exact floor.
-/

namespace Wayfinding.Binary

/-- What a single precision number stands for. A zero keeps its sign. -/
inductive Value where
  | nan
  | infinite (negative : Bool)
  | finite (negative : Bool) (size : Dyadic)
deriving DecidableEq

/-- The exact value of a single precision number. -/
def value (x : Float32) : Value :=
  let bits := x.toBits.toNat
  let negative := decide (2147483648 ≤ bits)
  let exponent := bits / 8388608 % 256
  let fraction := bits % 8388608
  if exponent = 255 then
    if fraction = 0 then .infinite negative else .nan
  else if exponent = 0 then .finite negative ⟨fraction, -149⟩
  else .finite negative ⟨8388608 + fraction, (exponent : Int) - 150⟩

/-- The single precision number with this sign and a size of that format. -/
def ofDyadic (negative : Bool) (size : Dyadic) : Float32 :=
  let sign := if negative then 2147483648 else 0
  let body :=
    if size.mantissa < 8388608 then size.mantissa
    else (size.exponent + 150).toNat * 8388608 + (size.mantissa - 8388608)
  Float32.ofBits (UInt32.ofNat (sign + body))

/-- The infinite number with this sign. -/
def infinity (negative : Bool) : Float32 :=
  Float32.ofBits (if negative then 4286578688 else 2139095040)

/-- The greatest integer that is not above a dyadic number of this sign. -/
def floorDyadic (negative : Bool) (size : Dyadic) : Int :=
  let m : Int := if negative then -size.mantissa else size.mantissa
  m * (Nat.pow 2 size.exponent.toNat : Nat) / (Nat.pow 2 (-size.exponent).toNat : Nat)

/-- The floor, clamped to what a signed word of 32 bits holds; the floor of no number is zero. -/
def floorInt32 (x : Float32) : Int :=
  match value x with
  | .nan => 0
  | .infinite negative => if negative then -2147483648 else 2147483647
  | .finite negative size => clampInt32 (floorDyadic negative size)

/-- The floor fits a signed word of 32 bits, whatever the number is. -/
theorem inInt32_floorInt32 (x : Float32) : InInt32 (floorInt32 x) := by
  unfold floorInt32
  split
  · decide
  · split <;> decide
  · exact inInt32_clampInt32 _

end Wayfinding.Binary
