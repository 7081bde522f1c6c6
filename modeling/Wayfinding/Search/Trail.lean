import Wayfinding.Search.State

/-!
The path that a finished search has found: from the goal back along the cells from which each
one was reached. A jump point found beside a diagonal run was reached from the start of the run,
so the cell where the run turned is put in between.
-/

namespace Wayfinding

/-- The cell where a way from `source` to `target` turns from diagonal to straight, if it is neither
all straight nor all diagonal.
-/
def turningPoint? (target source : Point) : Option Point :=
  let d := target - source
  let dx : Int := d.x.natAbs
  let dy : Int := d.y.natAbs
  if dx = 0 ∨ dy = 0 ∨ dx = dy then none
  else some (source + d.signum.scale (min dx dy))

/-- At most `n` steps back from a cell, with the turning points. -/
def walkBack (cameFrom : Layer e (Option Point)) : Nat → Point → List Point
  | 0, p => [p]
  | n + 1, p =>
      match cameFrom.get p none with
      | none => [p]
      | some q => p :: (turningPoint? p q).toList ++ walkBack cameFrom n q

/-- The cells of the path to `goal`, from its start on. No cell comes twice on the way back, so
there are fewer steps than cells.
-/
def Search.path (s : Search e) (goal : Point) : List Point :=
  (walkBack s.cameFrom e.area goal).reverse

end Wayfinding
