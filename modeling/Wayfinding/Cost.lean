import Wayfinding.Point

/-!
The cost of walking: five for a step along an axis and seven for a diagonal one. `octile` is the
cost of the cheapest walk between two cells when nothing stands in the way.
-/

namespace Wayfinding

/-- The cost of one step along an axis. -/
def straightCost : Int :=
  5

/-- The cost of one diagonal step. -/
def diagonalCost : Int :=
  7

/-- The cost of going from one cell to another on free ground, as many diagonal steps as possible
and the rest straight.
-/
def octile (a b : Point) : Int :=
  let dx : Int := (a.x - b.x).natAbs
  let dy : Int := (a.y - b.y).natAbs
  min dx dy * diagonalCost + (max dx dy - min dx dy) * straightCost

/-- The octile cost while it fits. No part of the computation exceeds the result, so one check
covers them all.
-/
def octile? (a b : Point) : Option Int :=
  int32? (octile a b)

/-- The octile cost of a path, from each of its cells to the next. -/
def pathCost : List Point → Int
  | a :: b :: rest => octile a b + pathCost (b :: rest)
  | _ => 0

/-- The cost of a path while it fits. No cost is negative, so no partial sum exceeds the whole. -/
def pathCost? (path : List Point) : Option Int :=
  int32? (pathCost path)

/-- No octile cost is negative. -/
theorem octile_nonneg (a b : Point) : 0 ≤ octile a b := by
  simp only [octile, diagonalCost, straightCost]
  omega

/-- No path has a negative cost. -/
theorem pathCost_nonneg (path : List Point) : 0 ≤ pathCost path := by
  fun_induction pathCost path with
  | case1 a b rest ih => exact Int.add_nonneg (octile_nonneg a b) ih
  | case2 => exact Int.le_refl 0

/-- Each coordinate difference costs at least five for each unit. -/
theorem difference_le_octile (a b : Point)
    : 5 * ((a.x - b.x).natAbs : Int) ≤ octile a b
      ∧ 5 * ((a.y - b.y).natAbs : Int) ≤ octile a b := by
  simp only [octile, diagonalCost, straightCost]
  omega

end Wayfinding
