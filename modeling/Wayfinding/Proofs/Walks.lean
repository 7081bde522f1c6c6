import Mathlib.Data.Int.Order.Basic
import Mathlib.Order.Bounds.Defs
import Wayfinding.Cost
import Wayfinding.Grid.Terrain

/-! Walks from cell to cell in any of the eight directions, and what they cost.
A step needs nothing but a walkable target, so a walk may pass between two obstacles that touch
at a corner. The octile cost never exceeds the cost of a walk.
-/

namespace Wayfinding

/-- The cost of one step in a direction. -/
def Direction.cost (d : Direction) : Int :=
  if d.diagonal then diagonalCost else straightCost

theorem Direction.cost_pos (d : Direction) : 0 < d.cost := by
  cases d <;> decide

/-- A step lowers the octile cost to a goal by no more than it costs, by cases over the
directions.
-/
theorem octile_le_step (p goal : Point) (d : Direction)
    : octile p goal ≤ d.cost + octile (p + d.delta) goal := by
  cases d <;>
    simp only [octile, Direction.cost, Direction.diagonal, Direction.index, Direction.delta,
      diagonalCost, straightCost, Point.add_x, Point.add_y] <;>
    simp only [Nat.reduceMod, Nat.reduceBEq, Bool.false_eq_true, if_true, if_false] <;>
    omega

@[simp] theorem octile_self (p : Point) : octile p p = 0 := by
  simp [octile, diagonalCost, straightCost]

namespace Terrain

/-- A walk leads from one walkable cell to another by single steps onto walkable cells. -/
inductive Walk (t : Terrain) (start : Point) : Point → Int → Prop
  | here (free : t.walkable start = true) : t.Walk start start 0
  | step {p : Point} {c : Int} (before : t.Walk start p c) (d : Direction)
    (free : t.walkable (p + d.delta) = true)
    : t.Walk start (p + d.delta) (c + d.cost)

/-- The cell can be reached at this cost and not at a smaller one. -/
def Cheapest (t : Terrain) (start p : Point) (c : Int) : Prop :=
  IsLeast {cost | t.Walk start p cost} c

variable {t : Terrain} {start p q : Point} {c : Int}

theorem Walk.walkable (w : t.Walk start p c) : t.walkable p = true := by
  cases w with
  | here free => exact free
  | step _ _ free => exact free

/-- No walk has a negative cost, by induction over its steps. -/
theorem Walk.cost_nonneg (w : t.Walk start p c) : 0 ≤ c := by
  induction w with
  | here => exact Int.le_refl 0
  | step _ d _ ih => exact Int.add_nonneg ih (Int.le_of_lt d.cost_pos)

/-- Walks join to a walk, by induction over the second one. -/
theorem Walk.trans {r : Int} (first : t.Walk start p c) (second : t.Walk p q r)
    : t.Walk start q (c + r) := by
  induction second with
  | here => simpa using first
  | step _ d free ih =>
      rw [← Int.add_assoc]
      exact .step ih d free

/-- A walk costs at least what the octile cost to any goal falls by. -/
theorem Walk.octile_le (w : t.Walk start p c) (goal : Point)
    : octile start goal ≤ c + octile p goal := by
  induction w with
  | here => simp
  | @step p c _ d _ ih =>
      have fall := octile_le_step p goal d
      omega

/-- A cell that can be reached can be reached at a least cost. -/
theorem Walk.exists_cheapest (w : t.Walk start p c) : ∃ least, t.Cheapest start p least := by
  have bounded : ∀ n : Nat, ∀ cost : Int, cost.toNat = n → t.Walk start p cost
      → ∃ least, t.Cheapest start p least := by
    intro n
    induction n using Nat.strongRecOn with
    | ind n ih =>
        intro cost hn walk
        by_cases least : ∀ other, t.Walk start p other → cost ≤ other
        · exact ⟨cost, walk, fun other hw => least other hw⟩
        · simp only [not_forall, Int.not_le] at least
          obtain ⟨other, cheaper, less⟩ := least
          have nonneg := cheaper.cost_nonneg
          exact ih other.toNat (by omega) other rfl cheaper
  exact bounded c.toNat c rfl w

/-- A walk that costs no more than a cheapest one is as cheap. -/
theorem Cheapest.of_le (h : t.Cheapest start p c) {k : Int} (walk : t.Walk start p k)
    (le : k ≤ c)
    : t.Cheapest start p k := by
  have equal : k = c := Int.le_antisymm le (h.2 walk)
  rw [equal]
  exact h

/-- A cheapest walk either goes nowhere or is one step longer than a cheapest walk. -/
theorem Cheapest.last_step (h : t.Cheapest start p c)
    : (p = start ∧ c = 0)
      ∨ ∃ (q : Point) (d : Direction) (r : Int),
          p = q + d.delta ∧ c = r + d.cost ∧ t.Cheapest start q r := by
  obtain ⟨walk, least⟩ := h
  cases walk with
  | here => exact Or.inl ⟨rfl, rfl⟩
  | @step q r before d free =>
      refine Or.inr ⟨q, d, r, rfl, rfl, before, ?_⟩
      intro other hw
      have longer := least (Walk.step hw d free)
      omega

end Terrain

end Wayfinding
