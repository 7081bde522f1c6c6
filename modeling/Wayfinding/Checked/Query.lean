import Wayfinding.Checked.Search
import Wayfinding.GridMap.Query

/-!
Path queries between cells in machine words: the ends are checked, the search is made, its path is
read off and shortened. `Proofs.Queries.Safety` says that a query never breaks off as long as the
costs fit, and that its answer is that of the map.
-/

namespace Wayfinding.Checked

-----------------------------------------------------------------------------------------
-- The path of a search
-----------------------------------------------------------------------------------------

/-- The cell where a way from `source` to `target` turns from diagonal to straight, if it is neither
all straight nor all diagonal.
-/
def turningPoint (target source : Point) : Option (Option Point) := do
  let d ← target.sub? source
  let dx ← int32? d.x.natAbs
  let dy ← int32? d.y.natAbs
  if dx = 0 ∨ dy = 0 ∨ dx = dy then return none
  else
    let run ← d.signum.scale? (min dx dy)
    let turn ← source.add? run
    return some turn

/-- The way back from a cell with the turning points, within a number of cells. -/
def walkBack {e : Extent} (cameFrom : Layer e (Option Point))
    : Nat → Point → Option (List Point)
  | 0, _ => none
  | n + 1, p => do
      match ← read cameFrom p with
      | none => return [p]
      | some q =>
          let turn ← turningPoint p q
          let rest ← walkBack cameFrom n q
          return p :: turn.toList ++ rest

/-- The cells of the path to `goal`, from its start on. -/
def path {e : Extent} (s : State e) (goal : Point) : Option (List Point) := do
  let back ← walkBack s.cameFrom e.area goal
  return back.reverse

-----------------------------------------------------------------------------------------
-- Shortening it
-----------------------------------------------------------------------------------------

/-- The cells beside all crossings of a line, with the integers that the loops over its grid lines
begin with.
-/
def crossings (a b : Position) : Option (List Point) := do
  let _ ← int32? (min a.cell.x b.cell.x + 1)
  let _ ← int32? (min a.cell.y b.cell.y + 1)
  (a.crossings b).mapM Point.checked?

/-- The first listed cell that is not walkable. -/
def firstBlocked (t : Terrain) : List Point → Option (Option Point)
  | [] => some none
  | p :: ps => do
      if ← walkable t p then firstBlocked t ps else return some p

/-- The first cell that blocks the straight line between two positions. -/
def obstacle (t : Terrain) (a b : Position) : Option (Option Point) := do
  if !a.finite then return some a.cell
  else if !b.finite then return some b.cell
  else if !(← walkable t a.cell) then return some a.cell
  else if !(← walkable t b.cell) then return some b.cell
  else firstBlocked t (← crossings a b)

/-- The last of `n` places from `first` on whose cell can be seen from `p`. -/
def farthest (t : Terrain) (path : List Point) (p : Point) (first : Nat)
    : Nat → Option (Option Nat)
  | 0 => some none
  | n + 1 => do
      let i ← word64? (first + n)
      let q ← path[i]?
      if (← obstacle t p.center q.center).isNone then return some i
      else farthest t path p first n

/-- The path without the places from `i` up to but not including `j`. -/
def drain (path : List Point) (i j : Nat) : Option (List Point) :=
  if i ≤ j ∧ j ≤ path.length then some (path.take i ++ path.drop j) else none

/-- The path shortened from the place `i` on, within a number of places: each cell is followed by
the farthest one in sight of it.
-/
def smoothFrom (t : Terrain) : Nat → Nat → List Point → Option (List Point)
  | 0, _, _ => none
  | steps + 1, i, path =>
      if i < path.length then do
        let p ← path[i]?
        let next ← word64? (i + 1)
        let first ← word64? (i + 2)
        match ← farthest t path p first (path.length - first) with
        | none => smoothFrom t steps next path
        | some j => smoothFrom t steps next (← drain path next j)
      else some path

/-- The path shortened by the sight between the middles of its cells. -/
def smooth (t : Terrain) (path : List Point) : Option (List Point) :=
  smoothFrom t (path.length + 1) 0 path

-----------------------------------------------------------------------------------------
-- Queries
-----------------------------------------------------------------------------------------

/-- Checks the ends of a query and records them once both lie inside. -/
def checkEnds (m : GridMap) (start goal : Point) : Option (Except MapFault Unit × GridMap) := do
  match ← place m.extent start, ← place m.extent goal with
  | none, _ => return (.error (.outOfBounds start), m)
  | _, none => return (.error (.outOfBounds goal), m)
  | some _, some _ =>
      let m := { m with start := some start, goal := some goal }
      if !(← walkable m.terrain start) then return (.error (.blockedStart start), m)
      else if !(← walkable m.terrain goal) then return (.error (.blockedEnd goal), m)
      else return (.ok (), m)

/-- The marked parts do not speak against a way between two cells inside. -/
def mayConnect (m : GridMap) (p q : Point) : Option Bool :=
  match m.components with
  | none => some true
  | some c => do
      let first ← read c.labels p
      let second ← read c.labels q
      return first != 0 && first == second

/-- The jump points of a cheapest path between two walkable cells. -/
def route (m : GridMap) (start goal : Point) : Option (GridMap.Answer (List Point)) := do
  if start = goal then return .ok (some [start])
  else if m.settings.connectivityReject && !(← mayConnect m start goal) then return .ok none
  else
    match ← search m.terrain goal start with
    | .error reason => return .error reason
    | .ok none => return .ok none
    | .ok (some s) => return .ok (some (← path s goal))

/-- The path between two cells, smoothed if asked for, and the map afterwards. -/
def queryCells (m : GridMap) (smoothing : Bool) (start goal : Point)
    : Option (GridMap.Answer (List Point) × GridMap) := do
  match ← checkEnds m start goal with
  | (.error reason, m) => return (.error reason, m)
  | (.ok _, m) =>
      match ← route m start goal with
      | .error reason => return (.error reason, m)
      | .ok none => return (.ok none, { m with latestPath := [] })
      | .ok (some cells) =>
          let cells ← if smoothing then smooth m.terrain cells else some cells
          return (.ok (some cells), { m with latestPath := cells })

end Wayfinding.Checked
