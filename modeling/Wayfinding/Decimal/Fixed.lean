import Wayfinding.Binary.Single
import Wayfinding.Decimal.Digits

/-!
Single precision numbers with two decimal places. The places are those of the exact binary
value, and a half goes to the even neighbour.
-/

namespace Wayfinding.Decimal

/-- How many hundredths a dyadic number is, to the nearest. -/
def hundredths (size : Binary.Dyadic) : Nat :=
  let (n, d) := Binary.shiftFraction (size.mantissa * 100) 1 size.exponent
  Binary.divideToEven n d

/-- A number of hundredths with a point and two places. -/
def ofHundredths (n : Nat) : String :=
  ofNat (n / 100) ++ "." ++ ofNat (n / 10 % 10) ++ ofNat (n % 10)

/-- A single precision number with two places. Everything of negative sign shows it, zero too. -/
def twoPlaces (x : Float32) : String :=
  match Binary.value x with
  | .nan => "NaN"
  | .infinite negative => if negative then "-inf" else "inf"
  | .finite negative size => (if negative then "-" else "") ++ ofHundredths (hundredths size)

end Wayfinding.Decimal
