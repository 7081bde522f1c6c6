import Wayfinding.Decimal.Digits

/-!
Why a heap refuses an operation, and the wording of each reason.
-/

namespace Wayfinding

/-- The reasons for which a heap refuses an operation. -/
inductive HeapFault where
  | zeroCapacity
  | capacityExceeded (capacity : Nat)
  | staleHandle (handle : Nat)
  | keyIncreased
deriving DecidableEq

/-- The wording of a reason. -/
def HeapFault.message : HeapFault → String
  | .zeroCapacity => "fibheap: capacity must be positive"
  | .capacityExceeded capacity =>
      "fibheap: overflow, capacity of " ++ Decimal.ofNat capacity ++ " elements exceeded"
  | .staleHandle handle => "fibheap: handle " ++ Decimal.ofNat handle ++ " is not live"
  | .keyIncreased => "fibheap: decrease_key called with a larger key"

end Wayfinding
