import Wayfinding.Binary.Single
import Wayfinding.Decimal.Fixed
import Wayfinding.Point

/-!
Continuous positions on the plane of the cells. The cell `(x, y)` covers the positions from
`(x, y)` up to, but not including, `(x + 1, y + 1)`.
-/

namespace Wayfinding

/-- A position with single precision coordinates. -/
structure Position where
  x : Float32
  y : Float32
deriving DecidableEq

/-- The nearest single precision number to an integer. -/
def single (n : Int) : Float32 :=
  Float32.ofInt n

/-- The middle of a cell. -/
def Point.center (p : Point) : Position :=
  ⟨single p.x + 0.5, single p.y + 0.5⟩

/-- The corner of a cell that has the cell's own coordinates. -/
def Point.corner (p : Point) : Position :=
  ⟨single p.x, single p.y⟩

namespace Position

/-- The cell that a position falls in. A coordinate beyond 32 bits is clamped, and one that is no
number counts as zero.
-/
def cell (a : Position) : Point :=
  ⟨Binary.floorInt32 a.x, Binary.floorInt32 a.y⟩

/-- Neither coordinate is infinite or no number. -/
def finite (a : Position) : Bool :=
  a.x.isFinite && a.y.isFinite

/-- Both coordinates compare equal: zeros of either sign do, and what is no number never does. -/
def same (a b : Position) : Bool :=
  a.x == b.x && a.y == b.y

/-- The straight distance. The squares are added in double precision, and an infinite difference
makes the distance infinite even beside one that is no number.
-/
def distance (a b : Position) : Float32 :=
  let dx := a.x - b.x
  let dy := a.y - b.y
  if dx.isInf || dy.isInf then Binary.infinity false
  else (dx.toFloat * dx.toFloat + dy.toFloat * dy.toFloat).sqrt.toFloat32

/-- The position in writing, such as `(0.50, 1.25)`. -/
def text (a : Position) : String :=
  "(" ++ Decimal.twoPlaces a.x ++ ", " ++ Decimal.twoPlaces a.y ++ ")"

/-- The cell of a position always fits. -/
theorem cell_fits (a : Position) : a.cell.Fits :=
  ⟨Binary.inInt32_floorInt32 a.x, Binary.inInt32_floorInt32 a.y⟩

end Position

end Wayfinding
