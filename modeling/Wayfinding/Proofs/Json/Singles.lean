import Wayfinding.Proofs.Binary.Magnitudes
import Wayfinding.Proofs.Json.Numbers

/-! Single precision numbers that are written can be read again if they are finite: their decimals
are never so great that a reader refuses them. Which number is read is another question.
-/

namespace Wayfinding

namespace Json

-----------------------------------------------------------------------------------------
-- Decimals in double precision
-----------------------------------------------------------------------------------------

variable {x n d : Binary.Dyadic}

theorem double_precision : (Binary.Format.double.precision : Int) = 53 := rfl

theorem double_least : Binary.Format.double.least = -1074 := rfl

theorem double_greatest : Binary.Format.double.greatest = 971 := rfl

/-- A whole number of a few bits is rounded to double precision. -/
theorem exists_round?_whole {whole bits : Nat} (few : whole.log2 ≤ bits) (room : bits ≤ 900)
    : ∃ x, Binary.Format.double.round? whole 1 0 = some x ∧ x.top ≤ bits + 4 := by
  have unit : Nat.log2 1 = 0 := by decide
  have first : (whole.log2 : Int) - Nat.log2 1 + 0 - Binary.Format.double.precision + 1
      ≤ bits - 51 := by
    rw [double_precision]
    omega
  obtain ⟨x, rounded, top⟩ := Binary.Format.exists_round?
    (by rw [double_least]; omega) first (by rw [double_greatest]; omega)
  rw [double_precision] at top
  exact ⟨x, rounded, by omega⟩

/-- No power of ten lies far below one. -/
theorem le_top_powerOfTen (k : Nat) : -53 ≤ (powerOfTen k).top := by
  unfold powerOfTen
  cases rounded : Binary.Format.double.round? (Nat.pow 10 k) 1 0 with
  | none => decide
  | some x =>
      have top := Binary.Format.le_top_of_round? (Nat.ne_of_gt (Nat.pow_pos (by decide))) rounded
      have unit : Nat.log2 1 = 0 := by decide
      rw [double_precision] at top
      simp only [Option.getD_some]
      omega

theorem top_powerOfTen_le {k : Nat} (small : k ≤ 200) : (powerOfTen k).top ≤ 4 * k + 4 := by
  have power : Nat.pow 10 k ≤ 2 ^ (4 * k) := by
    rw [Nat.pow_mul]
    exact Nat.pow_le_pow_left (by decide) k
  obtain ⟨x, rounded, top⟩ := exists_round?_whole (Binary.log2_le_of_le power) (by omega)
  rw [powerOfTen, rounded]
  exact Int.le_trans top (by omega)

theorem top_one : one.top = 0 := by
  decide

/-- A product that stays well below the greatest number of double precision is rounded to one. -/
theorem exists_scaleDouble? {bound : Int} (small : x.top + n.top - d.top ≤ bound)
    (least : 0 ≤ bound) (room : bound ≤ 1000)
    : ∃ y, scaleDouble? x n d = some y ∧ y.top ≤ bound + 4 := by
  have product := Binary.log2_mul_le x.mantissa n.mantissa
  have first : ((x.mantissa * n.mantissa).log2 : Int) - d.mantissa.log2
      + (x.exponent + n.exponent - d.exponent) - Binary.Format.double.precision + 1
      ≤ bound - 51 := by
    simp only [Binary.Dyadic.top] at small
    rw [double_precision]
    omega
  obtain ⟨y, rounded, top⟩ := Binary.Format.exists_round?
    (by rw [double_least]; omega) first (by rw [double_greatest]; omega)
  rw [double_precision] at top
  exact ⟨y, rounded, by omega⟩

/-- So is a quotient by a power of ten. -/
theorem exists_scaleDouble?_powerOfTen {bound : Int} (k : Nat) (small : x.top ≤ bound)
    (least : 0 ≤ bound) (room : bound ≤ 900)
    : ∃ y, scaleDouble? x one (powerOfTen k) = some y ∧ y.top ≤ bound + 57 := by
  have power := le_top_powerOfTen k
  have near : x.top + one.top - (powerOfTen k).top ≤ bound + 53 := by
    rw [top_one]
    omega
  obtain ⟨y, scaled, top⟩ := exists_scaleDouble? near (by omega) (by omega)
  exact ⟨y, scaled, by omega⟩

/-- A decimal of at most 64 bits and not too great an exponent has a double precision number. -/
theorem exists_decimalToDouble? {significand : Nat} {exponent : Int}
    (digits : significand < 18446744073709551616) (small : exponent ≤ 200)
    : ∃ x, decimalToDouble? significand exponent = some x := by
  have bits : significand.log2 ≤ 64 := Binary.log2_le_of_le (Nat.le_of_lt digits)
  obtain ⟨x, rounded, top⟩ := exists_round?_whole bits (by decide)
  unfold decimalToDouble?
  simp only [rounded, Option.bind_eq_bind, Option.bind_some]
  split
  · exact ⟨x, rfl⟩
  · rw [if_neg (by omega)]
    split
    · have le : exponent.toNat ≤ 200 := by omega
      have power := top_powerOfTen_le le
      have near : x.top + (powerOfTen exponent.toNat).top - one.top ≤ 1000 := by
        rw [top_one]
        omega
      obtain ⟨y, scaled, _⟩ := exists_scaleDouble? near (by decide) (by decide)
      exact ⟨y, scaled⟩
    · have limit : x.top ≤ 100 := Int.le_trans top (by decide)
      split
      · obtain ⟨y, scaled, _⟩ :=
          exists_scaleDouble?_powerOfTen (-exponent).toNat limit (by decide) (by decide)
        exact ⟨y, scaled⟩
      · split
        · obtain ⟨y, scaled, limit'⟩ :=
            exists_scaleDouble?_powerOfTen 308 limit (by decide) (by decide)
          obtain ⟨z, scaled', _⟩ := exists_scaleDouble?_powerOfTen (-exponent - 308).toNat limit'
            (by decide) (by decide)
          exact ⟨z, by rw [scaled, Option.bind_some, scaled']⟩
        · exact ⟨_, rfl⟩

/-- What is absorbed of some digits stays below 64 bits, by induction over the digits. -/
theorem absorb_lt {acc : Nat} (small : acc < 18446744073709551616) (ds : List Nat)
    : (absorb acc ds).1 < 18446744073709551616 := by
  induction ds generalizing acc with
  | nil => exact small
  | cons d ds ih =>
      rw [absorb]
      split
      · rename_i next
        exact ih next
      · exact small

/-- A number is read if it is not too great. -/
theorem Number.exists_toSingle? {n : Number}
    (small : (n.whole.length : Int) + n.exponent.getD 0 ≤ 200)
    : ∃ x, n.toSingle? = some x := by
  have whole := absorb_lt (by decide : 0 < 18446744073709551616) n.whole
  have digits := absorb_lt whole n.fraction
  obtain ⟨x, rounded⟩ := exists_decimalToDouble? digits
    (show ((n.whole.length - (absorb 0 n.whole).2 : Nat) : Int)
      - (absorb (absorb 0 n.whole).1 n.fraction).2 + n.exponent.getD 0 ≤ 200 by omega)
  unfold Number.toSingle?
  dsimp only
  rw [rounded, Option.map_some, ← apply_ite some]
  exact ⟨_, rfl⟩

end Json

-----------------------------------------------------------------------------------------
-- Shortest decimals
-----------------------------------------------------------------------------------------

namespace Decimal

/-- A number below a power of ten has no more digits than the power, by induction along them. -/
theorem length_natDigits_le {n k : Nat} (small : n < 10 ^ k) (positive : 0 < k)
    : (natDigits n).length ≤ k := by
  fun_induction natDigits n generalizing k with
  | case1 n _ => exact positive
  | case2 n large ih =>
      obtain ⟨k, rfl⟩ := Nat.exists_eq_succ_of_ne_zero (Nat.ne_of_gt positive)
      rw [Nat.pow_succ] at small
      have more : 0 < k := by
        refine Nat.pos_of_ne_zero fun none => ?_
        subst none
        omega
      have fewer := ih (Nat.div_lt_of_lt_mul (by omega)) more
      simpa using fewer

/-- A size of single precision, half a unit more included, is less than the power of ten with which
the search for its shortest decimal begins.
-/
theorem Interval.high_lt {size : Binary.Dyadic} (mantissa : size.mantissa < 16777216)
    (exponent : size.exponent ≤ 104)
    : (Interval.ofDyadic size).high < 10 ^ 39 * (Interval.ofDyadic size).den := by
  have scale : 2 ^ (size.exponent - 2).toNat ≤ 2 ^ 102 :=
    Nat.pow_le_pow_right (by decide) (by omega)
  have den : 1 ≤ 2 ^ (2 - size.exponent).toNat := Nat.one_le_two_pow
  calc (4 * size.mantissa + 2) * 2 ^ (size.exponent - 2).toNat
    _ ≤ 2 ^ 26 * 2 ^ 102 := Nat.mul_le_mul (by omega) scale
    _ < 10 ^ 39 := by decide
    _ ≤ 10 ^ 39 * 2 ^ (2 - size.exponent).toNat := Nat.le_mul_of_pos_right _ den

/-- What lies in the interval of such a size is less than that power of ten. -/
theorem Interval.lt_of_holds {i : Interval} (high : i.high < 10 ^ 39 * i.den) {n : Nat} {e : Int}
    (low : e ≤ 39) (holds : i.holds n e = true)
    : n < 10 ^ (39 - e).toNat := by
  have below : n * 10 ^ e.toNat * i.den ≤ i.high * 10 ^ (-e).toNat := by
    unfold Interval.holds at holds
    simp only [scaleFraction, Nat.one_mul] at holds
    split at holds
    · exact (of_decide_eq_true holds).2
    · exact Nat.le_of_lt (of_decide_eq_true holds).2
  have above : n * 10 ^ e.toNat * i.den < 10 ^ 39 * 10 ^ (-e).toNat * i.den := by
    calc n * 10 ^ e.toNat * i.den
      _ ≤ i.high * 10 ^ (-e).toNat := below
      _ < 10 ^ 39 * i.den * 10 ^ (-e).toNat :=
        Nat.mul_lt_mul_of_pos_right high (Nat.pow_pos (by decide))
      _ = 10 ^ 39 * 10 ^ (-e).toNat * i.den := Nat.mul_right_comm ..
  have powers : (10 : Nat) ^ 39 * 10 ^ (-e).toNat = 10 ^ (39 - e).toNat * 10 ^ e.toNat := by
    rw [← Nat.pow_add, ← Nat.pow_add]
    congr 1
    omega
  rw [powers] at above
  exact Nat.lt_of_mul_lt_mul_right (Nat.lt_of_mul_lt_mul_right above)

/-- The shortest decimal of a size of single precision has its point after the fortieth digit at
most.
-/
theorem length_shortest_le {size : Binary.Dyadic} (mantissa : size.mantissa < 16777216)
    (exponent : size.exponent ≤ 104)
    : ((natDigits (shortest size).digits).length : Int) + (shortest size).exponent ≤ 40 := by
  unfold shortest
  cases found : (Interval.ofDyadic size).coarsest 90 39 with
  | none =>
      have one : (natDigits 0).length ≤ 1 := length_natDigits_le (by decide) (by decide)
      simp only [Option.getD_none]
      omega
  | some d =>
      obtain ⟨holds, low⟩ := Interval.holds_of_coarsest found
      have below := Interval.lt_of_holds (Interval.high_lt mantissa exponent) low holds
      have more : d.digits < 10 ^ (40 - d.exponent).toNat :=
        Nat.lt_of_lt_of_le below (Nat.pow_le_pow_right (by decide) (by omega))
      have length := length_natDigits_le more (by omega)
      simp only [Option.getD_some]
      omega

end Decimal

-----------------------------------------------------------------------------------------
-- Single precision
-----------------------------------------------------------------------------------------

namespace Json

/-- A decimal with its point after the fortieth digit at most is read as a number. -/
theorem Number.exists_toSingle?_ofDecimal (negative : Bool) {d : Decimal.Scaled}
    (small : ((Decimal.natDigits d.digits).length : Int) + d.exponent ≤ 40)
    : ∃ x, (Number.ofDecimal negative d).toSingle? = some x := by
  apply Number.exists_toSingle?
  unfold Number.ofDecimal
  dsimp only
  split
  · simp only [List.length_append, List.length_replicate, Option.getD_none]
    omega
  · split
    · simp only [List.length_take, Option.getD_none]
      omega
    · split
      · simp
      · simp only [List.length_take, Option.getD_some]
        omega

/-- A single precision number can be read after it has been written exactly if it is finite. -/
theorem isSome_singleValue?_ofSingle (x : Float32)
    : (singleValue? (.ofSingle x)).isSome = x.isFinite := by
  rw [Bool.eq_iff_iff, Option.isSome_iff_exists, Binary.isFinite_iff]
  unfold Value.ofSingle
  split
  · rename_i negative size found
    obtain ⟨mantissa, exponent⟩ := Binary.bounds_of_value found
    refine ⟨fun _ => ⟨negative, size, found⟩, fun _ => ?_⟩
    split
    · exact Number.exists_toSingle? (n := ⟨negative, [0], [0], none⟩) (by simp)
    · exact Number.exists_toSingle?_ofDecimal negative
        (Decimal.length_shortest_le mantissa exponent)
  · rename_i other
    constructor
    · rintro ⟨y, read⟩
      cases read
    · rintro ⟨negative, size, finite⟩
      exact absurd finite (other negative size)

end Json

end Wayfinding
