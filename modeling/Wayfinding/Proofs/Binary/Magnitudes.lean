import Mathlib.Algebra.Group.Nat.Defs
import Wayfinding.Binary.Single

/-! The magnitude of a rounded number, by the place of its first bit. It is enough to tell that a
number is not beyond the greatest one of a format. The numbers of single precision that are beyond
all finite ones, and those that are no numbers, are told by their exponent.
-/

namespace Wayfinding.Binary

-----------------------------------------------------------------------------------------
-- Rounding
-----------------------------------------------------------------------------------------

variable {f : Format} {n d : Nat} {shift : Int}

/-- The place of the first bit, counted from the point. -/
def Dyadic.top (x : Dyadic) : Int :=
  x.mantissa.log2 + x.exponent

theorem divideToEven_le (n d : Nat) : divideToEven n d ≤ n / d + 1 := by
  unfold divideToEven
  dsimp only
  split
  · omega
  · split <;> omega

/-- The exponent for a fraction leaves the bits of the mantissa and no more before the point. -/
theorem Format.exponentFor_bounds (f : Format) (n d : Nat) (shift : Int)
    : (n.log2 : Int) - d.log2 + shift - f.precision ≤ f.exponentFor n d shift
      ∧ f.exponentFor n d shift
        ≤ max f.least ((n.log2 : Int) - d.log2 + shift - f.precision + 1) := by
  unfold exponentFor
  dsimp only
  split <;> omega

/-- A fraction whose parts have these first bits, shifted, has no more bits before the point. -/
theorem shiftFraction_div_lt {bits : Nat} (few : (n.log2 : Int) - d.log2 + shift ≤ bits)
    : (shiftFraction n d shift).1 / (shiftFraction n d shift).2 < 2 ^ (bits + 1) := by
  rw [shiftFraction]
  rcases Nat.eq_zero_or_pos d with rfl | positive
  · rw [Nat.zero_mul, Nat.div_zero]
    exact Nat.two_pow_pos _
  · have lower : 2 ^ (d.log2 + (-shift).toNat) ≤ d * 2 ^ (-shift).toNat := by
      rw [Nat.pow_add]
      exact Nat.mul_le_mul_right _ (Nat.log2_self_le (Nat.ne_of_gt positive))
    have upper : n * 2 ^ shift.toNat < 2 ^ (n.log2 + 1 + shift.toNat) := by
      rw [Nat.pow_add]
      exact Nat.mul_lt_mul_of_pos_right Nat.lt_log2_self (Nat.two_pow_pos _)
    apply (Nat.div_lt_iff_lt_mul (Nat.mul_pos positive (Nat.two_pow_pos _))).mpr
    calc n * 2 ^ shift.toNat
      _ < 2 ^ (n.log2 + 1 + shift.toNat) := upper
      _ ≤ 2 ^ (bits + 1 + (d.log2 + (-shift).toNat)) :=
        Nat.pow_le_pow_right (by decide) (by omega)
      _ = 2 ^ (bits + 1) * 2 ^ (d.log2 + (-shift).toNat) := Nat.pow_add ..
      _ ≤ 2 ^ (bits + 1) * (d * 2 ^ (-shift).toNat) := Nat.mul_le_mul_left _ lower

theorem log2_le_of_le {m k : Nat} (le : m ≤ 2 ^ k) : m.log2 ≤ k := by
  rcases Nat.eq_zero_or_pos m with rfl | positive
  · exact Nat.zero_le k
  · have below : m < 2 ^ (k + 1) :=
      Nat.lt_of_le_of_lt le (Nat.pow_lt_pow_right (by decide) (Nat.lt_succ_self k))
    exact Nat.le_of_lt_succ ((Nat.log2_lt (Nat.ne_of_gt positive)).mpr below)

theorem log2_mul_le (m n : Nat) : (m * n).log2 ≤ m.log2 + n.log2 + 1 := by
  rcases Nat.eq_zero_or_pos m with rfl | first
  · simp
  · rcases Nat.eq_zero_or_pos n with rfl | second
    · simp
    · have product : m * n < 2 ^ (m.log2 + n.log2 + 2) := by
        calc m * n
          _ < 2 ^ (m.log2 + 1) * 2 ^ (n.log2 + 1) :=
            Nat.mul_lt_mul_of_lt_of_lt Nat.lt_log2_self Nat.lt_log2_self
          _ = 2 ^ (m.log2 + n.log2 + 2) := by
            rw [← Nat.pow_add]
            congr 1
            omega
      have positive := Nat.mul_pos first second
      exact Nat.le_of_lt_succ ((Nat.log2_lt (Nat.ne_of_gt positive)).mpr product)

/-- A fraction whose first bit lies well below that of the greatest number of a format is rounded to
a number of the format, with its first bit not much farther from the point.
-/
theorem Format.exists_round? {bound : Int} (least : f.least ≤ bound)
    (first : (n.log2 : Int) - d.log2 + shift - f.precision + 1 ≤ bound)
    (room : bound < f.greatest)
    : ∃ r, f.round? n d shift = some r ∧ r.top ≤ bound + f.precision + 2 := by
  unfold round?
  split
  · refine ⟨_, rfl, ?_⟩
    simp only [Dyadic.top, Nat.log2_zero]
    omega
  · obtain ⟨lower, upper⟩ := f.exponentFor_bounds n d shift
    generalize f.exponentFor n d shift = e at lower upper ⊢
    have bits : (n.log2 : Int) - d.log2 + (shift - e) ≤ f.precision := by omega
    have quotient := shiftFraction_div_lt bits
    dsimp only
    generalize shiftFraction n d (shift - e) = fraction at quotient ⊢
    have small : divideToEven fraction.1 fraction.2 ≤ 2 ^ (f.precision + 1) := by
      have nearest := divideToEven_le fraction.1 fraction.2
      omega
    split
    · have few : (Nat.pow 2 (f.precision - 1)).log2 ≤ f.precision - 1 :=
        log2_le_of_le (Nat.le_refl _)
      rw [if_pos (by dsimp only; omega)]
      refine ⟨_, rfl, ?_⟩
      simp only [Dyadic.top]
      omega
    · have few := log2_le_of_le small
      rw [if_pos (by dsimp only; omega)]
      refine ⟨_, rfl, ?_⟩
      simp only [Dyadic.top]
      omega

/-- A number that is rounded has no more bits before the point than the format leaves it. -/
theorem Format.le_top_of_round? {r : Dyadic} (positive : n ≠ 0)
    (rounded : f.round? n d shift = some r)
    : (n.log2 : Int) - d.log2 + shift - f.precision ≤ r.top := by
  have lower := (f.exponentFor_bounds n d shift).1
  have bits : (0 : Int) ≤ r.mantissa.log2 := Int.natCast_nonneg _
  unfold round? at rounded
  rw [if_neg positive] at rounded
  dsimp only at rounded
  rw [Dyadic.top]
  split at rounded
  all_goals
    split at rounded
    · cases rounded
      dsimp only at bits ⊢
      omega
    · cases rounded

-----------------------------------------------------------------------------------------
-- Single precision
-----------------------------------------------------------------------------------------

/-- A finite number has a mantissa of 24 bits and an exponent of the format. -/
theorem bounds_of_value {x : Float32} {negative : Bool} {size : Dyadic}
    (finite : value x = .finite negative size)
    : size.mantissa < 16777216 ∧ size.exponent ≤ 104 := by
  unfold value at finite
  dsimp only at finite
  split at finite
  · split at finite <;> cases finite
  · split at finite
    · cases finite
      constructor <;> dsimp only <;> omega
    · cases finite
      constructor <;> dsimp only <;> omega

/-- All bits of the exponent among the bits of a number are set exactly if they stand for 255. -/
theorem unpackExponent_eq_iff (b : BitVec Float.Model.Format.binary32.numBits)
    : Float.Model.UnpackedFloat.unpackExponent b = -1#8 ↔ b.toNat / 8388608 % 256 = 255 := by
  rw [← BitVec.toNat_inj, Float.Model.UnpackedFloat.unpackExponent]
  simp [BitVec.extractLsb_toNat, Nat.shiftRight_eq_div_pow]

/-- The bits of a number stand for a finite one unless all bits of its exponent are set. -/
theorem isFinite_unpack (b : BitVec Float.Model.Format.binary32.numBits)
    : (Float.Model.UnpackedFloat.unpack .binary32 b).isFinite = true
      ↔ b.toNat / 8388608 % 256 ≠ 255 := by
  have exponent := unpackExponent_eq_iff b
  delta Float.Model.UnpackedFloat.unpack
  dsimp only
  by_cases special : Float.Model.UnpackedFloat.unpackExponent b = -1#8
  · have set := exponent.mp special
    rw [if_pos special]
    split <;> exact iff_of_false Bool.false_ne_true (not_not_intro set)
  · have unset := mt exponent.mpr special
    rw [if_neg special]
    by_cases least : Float.Model.UnpackedFloat.unpackExponent b = 0#8
    · rw [if_pos least]
      by_cases zero : Float.Model.UnpackedFloat.unpackMantissa b = 0#23
      · rw [dif_pos zero]
        exact iff_of_true rfl unset
      · rw [dif_neg zero]
        exact iff_of_true rfl unset
    · rw [if_neg least]
      exact iff_of_true rfl unset

/-- Exactly the finite numbers have a finite value. -/
theorem isFinite_iff (x : Float32)
    : x.isFinite = true ↔ ∃ negative size, value x = .finite negative size := by
  have unpacked : x.isFinite = true ↔ x.toBits.toNat / 8388608 % 256 ≠ 255 :=
    isFinite_unpack x.toBits.toBitVec
  rw [unpacked, value]
  split
  · rename_i set
    split <;> simp [set]
  · rename_i unset
    split <;> simp [unset]

end Wayfinding.Binary
