import Wayfinding.Cost
import Wayfinding.Search.Jump

/-!
Costs, cells and jumps computed in machine words. A function is `none` where a number does not fit
its word, where it would be divided by zero, where a layer would be read or written beyond its end,
or where a loop would not come to an end. `Proofs.Checked.Jumps` says that inside an extent none of
this happens.
-/

namespace Wayfinding.Checked

-----------------------------------------------------------------------------------------
-- Costs
-----------------------------------------------------------------------------------------

/-- The octile cost, one operation after the other. -/
def octile (a b : Point) : Option Int := do
  let dx ← int32? (a.x - b.x)
  let dx ← int32? dx.natAbs
  let dy ← int32? (a.y - b.y)
  let dy ← int32? dy.natAbs
  let falling ← int32? (min dx dy * diagonalCost)
  let rest ← int32? (max dx dy - min dx dy)
  let level ← int32? (rest * straightCost)
  int32? (falling + level)

-----------------------------------------------------------------------------------------
-- Layers
-----------------------------------------------------------------------------------------

variable {e : Extent} {α : Type}

/-- The place of a cell in the layers of an extent, if the cell lies inside. -/
def place (e : Extent) (p : Point) : Option (Option Nat) :=
  if e.contains p then do
    let row ← word64? (p.y.toNat * e.width.toNat)
    let i ← word64? (row + p.x.toNat)
    return some i
  else some none

/-- The cell at a place in the layers of an extent. Coordinates lose the bits that do not fit. -/
def cellAt (e : Extent) (i : Nat) : Option Point :=
  let columns := e.width.toNat
  if columns = 0 then none
  else some ⟨wrapInt32 (i % columns : Nat), wrapInt32 (i / columns : Nat)⟩

/-- The value of a cell, which has to lie inside. -/
def read (l : Layer e α) (p : Point) : Option α := do
  let i ← (← place e p)
  l.cells[i]?

/-- The layer with another value at a place, which has to lie before its end. -/
def put (l : Layer e α) (i : Nat) (v : α) : Option (Layer e α) :=
  if h : i < e.area then some ⟨l.cells.set i v h⟩ else none

/-- The layer with another value for a cell, which has to lie inside. -/
def write (l : Layer e α) (p : Point) (v : α) : Option (Layer e α) := do
  put l (← (← place e p)) v

-----------------------------------------------------------------------------------------
-- Steps and turns
-----------------------------------------------------------------------------------------

/-- The cell lies inside and is not blocked. -/
def walkable (t : Terrain) (p : Point) : Option Bool := do
  match ← place t.extent p with
  | none => return false
  | some i => (t.blocked.cells[i]?).map (!·)

/-- The next cell in a direction, if it is walkable. -/
def step (t : Terrain) (p : Point) (d : Direction) : Option (Option Point) := do
  let q ← p.add? d.delta
  return if ← walkable t q then some q else none

/-- The cell `k` eighths of a turn from the direction `d` is open. -/
def openAt (t : Terrain) (p : Point) (d : Direction) (k : Nat) : Option Bool := do
  return (← step t p (← d.turn? k)).isSome

/-- The set with the turn `out`, provided that `side` is closed and `out` is open. -/
def addForced (t : Terrain) (p : Point) (d : Direction) (out side : Nat) (s : DirectionSet)
    : Option DirectionSet := do
  if (← openAt t p d out) && !(← openAt t p d side) then return s.insert (← d.turn? out)
  else return s

/-- The directions that obstacles beside a run in direction `d` force at the cell `p`. -/
def forced (t : Terrain) (p : Point) (d : Direction) : Option DirectionSet := do
  if d.diagonal then addForced t p d 2 3 (← addForced t p d 6 5 .empty)
  else addForced t p d 7 6 (← addForced t p d 1 2 .empty)

/-- The directions that follow a run in direction `d`. -/
def naturalDirections (d : Direction) : Option DirectionSet := do
  let ahead := DirectionSet.empty.insert d
  if d.diagonal then return (ahead.insert (← d.turn? 1)).insert (← d.turn? 7) else return ahead

/-- The directions to go on with at a cell, clockwise from north. -/
def directions (t : Terrain) (p : Point) : Option Direction → Option (List Direction)
  | none => some DirectionSet.full.toList
  | some d => do return ((← naturalDirections d).union (← forced t p d)).toList

-----------------------------------------------------------------------------------------
-- Jumps
-----------------------------------------------------------------------------------------

/-- Goes on looking unless the goal is found. -/
def orElse (a : Findings) (b : Unit → Option Findings) : Option Findings :=
  if a.goal then some a else (b ()).map fun more => ⟨a.stops ++ more.stops, more.goal⟩

/-- A run in direction `d` has to stop at this cell: at the goal, or because of a forced turn. -/
def stopsAt (t : Terrain) (goal : Point) (d : Direction) (p : Point) : Option Bool := do
  return p == goal || !(← forced t p d).isEmpty

/-- The jump points of a run from `p` in direction `d`, step by step within a number of steps. A
diagonal run looks along the two axes beside it before each further step.
-/
def jump (t : Terrain) (goal : Point) : Nat → Point → Direction → Option Findings
  | 0, _, _ => none
  | steps + 1, p, d => do
      match ← step t p d with
      | none => return .nothing
      | some q =>
          if ← stopsAt t goal d q then return Terrain.stopAt goal d q
          else if d.diagonal then
            orElse (← jump t goal steps q (← d.turn? 7)) fun _ => do
              orElse (← jump t goal steps q (← d.turn? 1)) fun _ => jump t goal steps q d
          else jump t goal steps q d

/-- The jump points of runs in several directions, up to the goal. A run and the ones beside it are
each no longer than the longer side.
-/
def jumps (t : Terrain) (goal p : Point) : List Direction → Option Findings
  | [] => some .nothing
  | d :: ds => do
      orElse (← jump t goal (2 * t.extent.side + 1) p d) fun _ => jumps t goal p ds

end Wayfinding.Checked
