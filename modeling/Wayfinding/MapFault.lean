import Wayfinding.FibonacciHeap.Fault
import Wayfinding.Point

/-!
Why a map refuses an operation, and the wording of each reason.
-/

namespace Wayfinding

/-- The reasons for which a map refuses an operation. The last one is that an integer of the
computation does not fit its word.
-/
inductive MapFault where
  | invalidSize (width height : Int)
  | outOfBounds (p : Point)
  | blockedStart (p : Point)
  | blockedEnd (p : Point)
  | heap (reason : HeapFault)
  | overflow
deriving DecidableEq

namespace MapFault

/-- The wording of a reason. -/
def message : MapFault → String
  | invalidSize width height =>
      "invalid map size " ++ Decimal.ofInt width ++ "x" ++ Decimal.ofInt height
  | outOfBounds p => "position " ++ p.text ++ " is out of map"
  | blockedStart p => "start position " ++ p.text ++ " is blocked"
  | blockedEnd p => "end position " ++ p.text ++ " is blocked"
  | heap reason => "open set: " ++ reason.message
  | overflow => "arithmetic overflow"

/-- The reason behind a reason: only a heap's is passed on. -/
def source? : MapFault → Option HeapFault
  | heap reason => some reason
  | _ => none

/-- A checked integer, with a missing one taken for an overflow. -/
def orOverflow : Option α → Except MapFault α
  | some a => .ok a
  | none => .error overflow

/-- The answer of a heap, with its reason passed on. -/
def ofHeap : Except HeapFault α → Except MapFault α
  | .ok a => .ok a
  | .error reason => .error (heap reason)

variable {α β : Type} {b : β}

/-- What follows a checked integer only comes to something if the integer fits. -/
theorem orOverflow_bind_eq_ok {x : Option α} {f : α → Except MapFault β}
    : (orOverflow x >>= f) = .ok b ↔ ∃ a, x = some a ∧ f a = .ok b := by
  cases x <;> simp [orOverflow, bind, Except.bind]

/-- What follows an operation on a heap only comes to something if the heap accepts it. -/
theorem ofHeap_bind_eq_ok {x : Except HeapFault α} {f : α → Except MapFault β}
    : (ofHeap x >>= f) = .ok b ↔ ∃ a, x = .ok a ∧ f a = .ok b := by
  cases x <;> simp [ofHeap, bind, Except.bind]

end MapFault

end Wayfinding
