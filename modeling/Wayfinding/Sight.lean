import Wayfinding.Grid.Terrain
import Wayfinding.Position

/-!
Lines of sight. A straight line crosses the grid lines between the columns of its ends and those
between the rows. At each crossing the two cells that touch there are looked at; `crossings`
lists them, and it depends on the ends alone.
-/

namespace Wayfinding

/-- The integers from `low` to `high`. -/
def span (low high : Int) : List Int :=
  (List.range (high - low + 1).toNat).map fun (i : Nat) => low + i

namespace Position

/-- The slope of the line between two positions. -/
def slope (a b : Position) : Float32 :=
  (b.y - a.y) / (b.x - a.x)

/-- The cells on either side of the crossing with the grid line at `x`. -/
def crossColumn (a b : Position) (x : Int) : List Point :=
  let y := Binary.floorInt32 (a.slope b * (single x - a.x) + a.y)
  [⟨x, y⟩, ⟨x - 1, y⟩]

/-- The cells on either side of the crossing with the grid line at `y`. -/
def crossRow (a b : Position) (y : Int) : List Point :=
  let x := Binary.floorInt32 ((single y - a.y) / a.slope b + a.x)
  [⟨x, y⟩, ⟨x, y - 1⟩]

/-- The cells beside all crossings of a line, first those with the columns' grid lines from west to
east and then those with the rows' grid lines from north to south.
-/
def crossings (a b : Position) : List Point :=
  (span (min a.cell.x b.cell.x + 1) (max a.cell.x b.cell.x)).flatMap (a.crossColumn b)
    ++ (span (min a.cell.y b.cell.y + 1) (max a.cell.y b.cell.y)).flatMap (a.crossRow b)

end Position

namespace Terrain

/-- The first cell that blocks the straight line between two positions: the cell of an end, or one
beside a crossing. The crossings are listed only when the cells of both ends are walkable, so the
list is no longer than the extent allows.
-/
def obstacle? (t : Terrain) (a b : Position) : Option Point :=
  if !a.finite then some a.cell
  else if !b.finite then some b.cell
  else if !t.walkable a.cell then some a.cell
  else if !t.walkable b.cell then some b.cell
  else (a.crossings b).find? fun p => !t.walkable p

/-- Nothing blocks the straight line between two positions. -/
def sees (t : Terrain) (a b : Position) : Bool :=
  (t.obstacle? a b).isNone

end Terrain

end Wayfinding
