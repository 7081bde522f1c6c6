import Mathlib.Data.List.Perm.Subperm
import Mathlib.Data.List.Nodup
import Wayfinding.Cost
import Wayfinding.Grid.Extent

/-! How many cells and how large costs there can be inside an extent.
-/

namespace Wayfinding

namespace Extent

variable {e : Extent}

theorem area_cast (e : Extent) : (e.area : Int) = e.width * e.height :=
  Int.toNat_of_nonneg (Int.mul_nonneg (Int.le_of_lt e.width_pos) (Int.le_of_lt e.height_pos))

theorem side_cast (e : Extent) : (e.side : Int) = max e.width e.height := by
  have positive := e.width_pos
  rw [side]
  omega

theorem area_pos (e : Extent) : 0 < e.area := by
  have product := Int.mul_pos e.width_pos e.height_pos
  rw [← e.area_cast] at product
  exact Int.natCast_pos.mp product

/-- There are no more different cells than the extent has. -/
theorem length_le_area {cells : List Point} (distinct : cells.Nodup)
    (inside : ∀ p ∈ cells, e.contains p = true)
    : cells.length ≤ e.area := by
  have part : cells ⊆ e.points := fun p hp => mem_points.mpr (inside p hp)
  have count := (distinct.subperm part).length_le
  simpa [points] using count

/-- The cost of `k` runs along the diagonal of a square over the longer side. -/
def budget (e : Extent) (k : Nat) : Int :=
  7 * e.side * k

@[simp] theorem budget_zero (e : Extent) : e.budget 0 = 0 := by
  simp [budget]

theorem budget_succ (e : Extent) (k : Nat) : e.budget (k + 1) = e.budget k + 7 * e.side := by
  simp only [budget, Int.natCast_succ, Int.mul_add, Int.mul_one]

theorem budget_le {j k : Nat} (h : j ≤ k) : e.budget j ≤ e.budget k := by
  have longer : (j : Int) ≤ k := Int.ofNat_le.mpr h
  exact Int.mul_le_mul_of_nonneg_left longer (by omega)

/-- Between cells inside, the octile cost stays below the budget of one run. -/
theorem octile_le_side {p q : Point} (hp : e.contains p = true) (hq : e.contains q = true)
    : octile p q ≤ 7 * e.side := by
  rw [contains_iff] at hp hq
  have side := e.side_cast
  simp only [octile, diagonalCost, straightCost]
  omega

/-- The cost of as many runs as there are cells fits a signed word of 32 bits, so no sum of costs
that a search computes can fail to.
-/
def CostsFit (e : Extent) : Prop :=
  7 * e.width * e.height * max e.width e.height ≤ 2147483647

instance (e : Extent) : Decidable e.CostsFit :=
  inferInstanceAs (Decidable (_ ≤ _))

/-- The budget of fewer runs than there are cells fits. -/
theorem CostsFit.budget_le (fits : e.CostsFit) {k : Nat} (h : k ≤ e.area)
    : e.budget k ≤ 2147483647 := by
  apply Int.le_trans (Extent.budget_le h)
  rw [budget]
  rw [side_cast, area_cast]
  rw [CostsFit] at fits
  rw [Int.mul_assoc, Int.mul_comm (max _ _), ← Int.mul_assoc, ← Int.mul_assoc]
  exact fits

end Extent

end Wayfinding
