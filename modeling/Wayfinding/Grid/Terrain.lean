import Wayfinding.Direction
import Wayfinding.Grid.Layer

/-!
A rectangle of cells, each open or blocked. Everything outside counts as blocked.
-/

namespace Wayfinding

/-- An extent and which of its cells are blocked. -/
structure Terrain where
  extent : Extent
  blocked : Layer extent Bool
deriving DecidableEq

namespace Terrain

/-- The cell lies inside and is not blocked. -/
def walkable (t : Terrain) (p : Point) : Bool :=
  !t.blocked.get p true

/-- The obstacles inside, row by row. -/
def obstacles (t : Terrain) : List Point :=
  t.extent.points.filter fun p => !t.walkable p

/-- The open cells, row by row. -/
def openCells (t : Terrain) : List Point :=
  t.extent.points.filter t.walkable

/-- The next cell in a direction, if it is walkable. -/
def step? (t : Terrain) (p : Point) (d : Direction) : Option Point :=
  if t.walkable (p + d.delta) then some (p + d.delta) else none

variable {t : Terrain} {p q : Point}

/-- A walkable cell lies inside. -/
theorem contains_of_walkable (h : t.walkable p = true) : t.extent.contains p = true := by
  simp only [walkable, Layer.get] at h
  split at h
  · assumption
  · simp at h

/-- Without an obstacle exactly the cells inside are walkable. -/
@[simp] theorem walkable_fill (e : Extent)
    : (Terrain.mk e (.fill e false)).walkable p = e.contains p := by
  simp only [walkable, Layer.get_fill]
  cases e.contains p <;> rfl

/-- Blocking or clearing a cell changes that cell alone, and only inside. -/
theorem walkable_set (e : Extent) (l : Layer e Bool) (b : Bool)
    : (Terrain.mk e (l.set p b)).walkable q
      = if p = q ∧ e.contains q = true then !b else (Terrain.mk e l).walkable q := by
  simp only [walkable, Layer.get_set]
  split <;> rfl

/-- A step leads to the neighbouring cell, and that one is walkable. -/
theorem step?_eq_some {d : Direction}
    : t.step? p d = some q ↔ q = p + d.delta ∧ t.walkable q = true := by
  unfold step?
  grind

end Terrain

end Wayfinding
