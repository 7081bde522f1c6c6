/-!
Integers that must fit a machine word. A checked integer is the exact integer while it fits and
`none` when it does not, so nothing wraps around: `int32?_eq_some` and its companions say that a
result is always the exact one.
-/

namespace Wayfinding

/-- The integers that a signed word of 32 bits holds. -/
def InInt32 (n : Int) : Prop :=
  -2147483648 ≤ n ∧ n ≤ 2147483647

instance (n : Int) : Decidable (InInt32 n) :=
  inferInstanceAs (Decidable (_ ∧ _))

/-- The integer itself while a signed word of 32 bits holds it. -/
def int32? (n : Int) : Option Int :=
  if InInt32 n then some n else none

/-- The nearest integer that a signed word of 32 bits holds. -/
def clampInt32 (n : Int) : Int :=
  max (-2147483648) (min n 2147483647)

/-- The integer that a signed word of 32 bits holds after all higher bits are dropped. -/
def wrapInt32 (n : Int) : Int :=
  n.bmod 4294967296

/-- The number itself while an unsigned word of 64 bits holds it. -/
def word64? (n : Nat) : Option Nat :=
  if n < 18446744073709551616 then some n else none

/-- The number itself while an unsigned byte holds it. -/
def byte? (n : Nat) : Option Nat :=
  if n < 256 then some n else none

/-- A checked integer is the exact one and fits. -/
theorem int32?_eq_some {n k : Int} : int32? n = some k ↔ n = k ∧ InInt32 k := by
  unfold int32?
  grind

/-- An integer is refused exactly when it does not fit. -/
theorem int32?_eq_none {n : Int} : int32? n = none ↔ ¬ InInt32 n := by
  simp [int32?]

/-- Checking an integer that fits changes nothing. -/
theorem int32?_of_fits {n : Int} (h : InInt32 n) : int32? n = some n :=
  int32?_eq_some.mpr ⟨rfl, h⟩

/-- A clamped integer always fits. -/
theorem inInt32_clampInt32 (n : Int) : InInt32 (clampInt32 n) := by
  unfold InInt32 clampInt32
  omega

/-- Wrapping leaves every integer that fits as it is. -/
theorem wrapInt32_of_fits {n : Int} (h : InInt32 n) : wrapInt32 n = n := by
  unfold InInt32 at h
  unfold wrapInt32
  rw [Int.bmod_def]
  split <;> omega

/-- A checked size is the exact one and lies below the limit of a 64-bit word. -/
theorem word64?_eq_some {n k : Nat}
    : word64? n = some k ↔ n = k ∧ k < 18446744073709551616 := by
  unfold word64?
  grind

end Wayfinding
