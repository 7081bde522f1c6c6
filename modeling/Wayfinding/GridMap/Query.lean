import Wayfinding.GridMap.Basic
import Wayfinding.Search.Trail
import Wayfinding.Waypoints

/-!
Path queries. A query between cells inside records its ends, even if one of them is blocked; a
path that is found is kept, and so is the fact that there is none, while an error leaves the
kept path alone. A query between positions in one cell is answered without looking at the map.
-/

namespace Wayfinding

namespace GridMap

/-- What a query answers: a path, no path, or an error. -/
abbrev Answer (α : Type) :=
  Except MapFault (Option α)

/-- Checks the ends of a query and records them once both lie inside. -/
def checkEnds (m : GridMap) (start goal : Point) : Except MapFault Unit × GridMap :=
  match m.checkInside start, m.checkInside goal with
  | .error e, _ => (.error e, m)
  | _, .error e => (.error e, m)
  | .ok _, .ok _ =>
      let m := { m with start := some start, goal := some goal }
      if !m.walkable start then (.error (.blockedStart start), m)
      else if !m.walkable goal then (.error (.blockedEnd goal), m)
      else (.ok (), m)

/-- The jump points of a cheapest path between two walkable cells. -/
def route (m : GridMap) (start goal : Point) : Answer (List Point) :=
  if start = goal then .ok (some [start])
  else if m.settings.connectivityReject && !m.mayConnect start goal then .ok none
  else
    match m.terrain.search start goal with
    | .error e => .error e
    | .ok (.reached node s) => .ok (some (s.path node.cell))
    | .ok _ => .ok none

/-- The path between two cells, smoothed if asked for. -/
def queryCells (m : GridMap) (smooth : Bool) (start goal : Point) : Answer (List Point) × GridMap :=
  match m.checkEnds start goal with
  | (.error e, m) => (.error e, m)
  | (.ok _, m) =>
      match m.route start goal with
      | .error e => (.error e, m)
      | .ok none => (.ok none, { m with latestPath := [] })
      | .ok (some cells) =>
          let cells := if smooth then m.terrain.smooth cells else cells
          (.ok (some cells), { m with latestPath := cells })

/-- The path between two cells, smoothed if the settings say so. -/
def findCells (m : GridMap) (start goal : Point) : Answer (List Point) × GridMap :=
  m.queryCells m.settings.smooth start goal

/-- The path between two cells as the search finds it. -/
def findRawCells (m : GridMap) (start goal : Point) : Answer (List Point) × GridMap :=
  m.queryCells false start goal

/-- The cell inside that a finite position falls in. -/
def locate (m : GridMap) (a : Position) : Except MapFault Point :=
  if a.finite && m.extent.contains a.cell then .ok a.cell else .error (.outOfBounds a.cell)

/-- The smoothed way between two positions. -/
def findWay (m : GridMap) (start goal : Position) : Answer (List Position) × GridMap :=
  match m.locate start, m.locate goal with
  | .error e, _ => (.error e, m)
  | _, .error e => (.error e, m)
  | .ok p, .ok q =>
      if p = q then (.ok (some [start, goal]), m)
      else
        match m.queryCells true p q with
        | (.error e, m) => (.error e, m)
        | (.ok none, m) => (.ok none, m)
        | (.ok (some cells), after) =>
            match after.terrain.way after.settings.cornerOffset cells start goal with
            | .error e => (.error e, { after with latestPath := m.latestPath })
            | .ok way => (.ok (some way), after)

end GridMap

end Wayfinding
