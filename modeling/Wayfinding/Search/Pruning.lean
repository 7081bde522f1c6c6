import Wayfinding.Grid.Terrain

/-!
Which directions a search has to go on with at a cell. A search that arrives in a direction keeps
on in it, and a diagonal one also turns to the two axes beside it. An obstacle at the side of the
run can force one more turn, because it blocks the way around the cell.
-/

namespace Wayfinding

/-- The directions that follow a run: all of them where no run led here. -/
def naturalDirections : Option Direction → DirectionSet
  | none => .full
  | some d =>
      if d.diagonal then ((DirectionSet.empty.insert d).insert (d.turn 1)).insert (d.turn 7)
      else DirectionSet.empty.insert d

namespace Terrain

/-- The cell `k` eighths of a turn from the direction `d` is open. -/
def openAt (t : Terrain) (p : Point) (d : Direction) (k : Nat) : Bool :=
  (t.step? p (d.turn k)).isSome

/-- The set with the turn `out`, provided that `side` is closed and `out` is open. -/
def addForced (t : Terrain) (p : Point) (d : Direction) (out side : Nat) (s : DirectionSet)
    : DirectionSet :=
  if t.openAt p d out && !t.openAt p d side then s.insert (d.turn out) else s

/-- The directions that obstacles beside a run in direction `d` force at the cell `p`. -/
def forced (t : Terrain) (p : Point) (d : Direction) : DirectionSet :=
  if d.diagonal then t.addForced p d 2 3 (t.addForced p d 6 5 .empty)
  else t.addForced p d 7 6 (t.addForced p d 1 2 .empty)

/-- The directions to go on with at a cell, clockwise from north. -/
def directions (t : Terrain) (p : Point) (heading : Option Direction) : List Direction :=
  match heading with
  | none => (naturalDirections none).toList
  | some d => ((naturalDirections (some d)).union (t.forced p d)).toList

end Terrain

end Wayfinding
