import Wayfinding.Search.Pruning

/-!
Jump points: the cells where a run from a cell may have to turn. A run along an axis ends at the
goal or at the first cell with a forced turn. A diagonal run ends in the same way, and at every
cell on its way it looks along the two axes beside it before it goes on.
-/

namespace Wayfinding

/-- A cell at which a search stops, with the direction in which it got there. -/
structure Stop where
  cell : Point
  heading : Direction
deriving DecidableEq

/-- The stops found so far, in order, and whether the goal is the last of them. -/
structure Findings where
  stops : List Stop
  goal : Bool
deriving DecidableEq

namespace Findings

/-- Nothing found. -/
def nothing : Findings :=
  ⟨[], false⟩

/-- Goes on looking unless the goal is found. -/
def orElse (a : Findings) (b : Unit → Findings) : Findings :=
  if a.goal then a
  else
    let more := b ()
    ⟨a.stops ++ more.stops, more.goal⟩

end Findings

namespace Terrain

variable (t : Terrain)

/-- At most `n` walkable cells met one after the other from `p` on in direction `d`. -/
def run (d : Direction) : Nat → Point → List Point
  | 0, _ => []
  | n + 1, p =>
      match t.step? p d with
      | none => []
      | some q => q :: run d n q

/-- The walkable cells met from `p` on in direction `d`, up to the first that is not. -/
def ray (p : Point) (d : Direction) : List Point :=
  t.run d t.extent.side p

/-- A run in direction `d` has to stop at this cell: at the goal, or because of a forced turn. -/
def stopsAt (goal : Point) (d : Direction) (p : Point) : Bool :=
  p == goal || !(t.forced p d).isEmpty

/-- The stop at a cell. -/
def stopAt (goal : Point) (d : Direction) (p : Point) : Findings :=
  ⟨[⟨p, d⟩], p == goal⟩

/-- The jump point of a run along an axis. -/
def jumpStraight (goal : Point) (p : Point) (d : Direction) : Findings :=
  match (t.ray p d).find? (t.stopsAt goal d) with
  | some q => stopAt goal d q
  | none => .nothing

/-- The jump points of a diagonal run over the listed cells. -/
def jumpDiagonal (goal : Point) (d : Direction) : List Point → Findings
  | [] => .nothing
  | q :: rest =>
      if t.stopsAt goal d q then stopAt goal d q
      else
        (t.jumpStraight goal q (d.turn 7)).orElse fun _ =>
          (t.jumpStraight goal q (d.turn 1)).orElse fun _ =>
            jumpDiagonal goal d rest

/-- The jump points of a run from `p` in direction `d`. -/
def jump (goal : Point) (p : Point) (d : Direction) : Findings :=
  if d.diagonal then t.jumpDiagonal goal d (t.ray p d) else t.jumpStraight goal p d

/-- The jump points of runs in several directions, up to the goal. -/
def jumps (goal : Point) (p : Point) : List Direction → Findings
  | [] => .nothing
  | d :: ds => (t.jump goal p d).orElse fun _ => jumps goal p ds

end Terrain

end Wayfinding
