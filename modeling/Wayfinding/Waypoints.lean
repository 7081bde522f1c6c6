import Wayfinding.MapFault
import Wayfinding.Smoothing

/-!
A path between positions inside their cells: the two positions, the middles of the cells between
them, and a corner of an obstacle where the line to an end would touch it.
-/

namespace Wayfinding

/-- The corners of a cell, from north to south on the west side and then on the east side. -/
def Point.corners (p : Point) : List Point :=
  [p, ⟨p.x, p.y + 1⟩, ⟨p.x + 1, p.y⟩, ⟨p.x + 1, p.y + 1⟩]

/-- A place just off a corner of a cell, away from the cell on both axes. -/
def Point.offCorner (p : Point) (offset : Float32) (corner : Point) : Position :=
  ⟨if corner.x = p.x then single corner.x - offset else single corner.x + offset,
    if corner.y = p.y then single corner.y - offset else single corner.y + offset⟩

namespace Terrain

variable (t : Terrain) (offset : Float32)

/-- The corner of an obstacle leads around it: the place just off it sees both ends. -/
def leadsAround (cell : Point) (a b : Position) (corner : Point) : Bool :=
  t.sees (cell.offCorner offset corner) a && t.sees (cell.offCorner offset corner) b

/-- The first corner of an obstacle that leads around it. -/
def cornerAround? (cell : Point) (a b : Position) : Except MapFault (Option Position) := do
  let _ ← MapFault.orOverflow (Point.checked? ⟨cell.x + 1, cell.y + 1⟩)
  return (cell.corners.find? (t.leadsAround offset cell a b)).map Point.corner

/-- The corner to go around between two positions, if something is in the way and it has one. -/
def detour (a b : Position) : Except MapFault (List Position) :=
  match t.obstacle? a b with
  | none => .ok []
  | some cell => (t.cornerAround? offset cell a b).map Option.toList

/-- The way from one position to another along a path of cells. -/
def way (cells : List Point) (start goal : Position) : Except MapFault (List Position) :=
  match cells with
  | _ :: next :: rest => do
      let interior := (next :: rest).dropLast
      let before ← t.detour offset start next.center
      let after ←
        match interior.getLast? with
        | none => .ok []
        | some last => t.detour offset last.center goal
      return start :: before ++ interior.map Point.center ++ after ++ [goal]
  | _ => .ok [start, goal]

end Terrain

end Wayfinding
