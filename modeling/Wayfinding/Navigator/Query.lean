import Wayfinding.Checked.Query
import Wayfinding.Navigator.Basic
import Wayfinding.Navigator.Search

/-!
Path queries in the buffers of a map, and the requests that a map takes one after the other. Every
search resets its buffers first; what it leaves there when it ends is what the path is read from.
-/

namespace Wayfinding

namespace Navigator

open Checked

-----------------------------------------------------------------------------------------
-- Searches
-----------------------------------------------------------------------------------------

/-- The map with its search buffers reset. -/
def reset (n : Navigator) : Navigator :=
  { n with
    cameFrom := n.cameFrom.refill none
    handles := n.handles.refill none
    closed := n.closed.refill false }

/-- The map with its search buffers as a search has left them. -/
def keep (n : Navigator) (s : State n.extent) : Navigator :=
  { n with handles := s.handles, closed := s.closed, cameFrom := s.cameFrom }

/-- The search in the buffers of a map that has only the start in its open set. -/
def initial (n : Navigator) (start goal : Point) : Option (Except HeapFault (State n.extent)) :=
  match Arena.empty Int Node n.extent.area with
  | .error reason => some (.error reason)
  | .ok heap => do
      let estimate ← Checked.octile start goal
      match ← heap.insert estimate ⟨start, 0, none⟩ with
      | (.error reason, _) => return .error reason
      | (.ok handle, heap) =>
          let handles ← write n.handles start (some handle)
          return .ok ⟨heap, handles, n.closed, n.cameFrom⟩

/-- Whether there is a way between two walkable cells. The buffers are reset before anything else.
-/
def seek (n : Navigator) (start goal : Point) : Option (Except HeapFault Bool × Navigator) := do
  let n := n.reset
  if start = goal then return (.ok true, n)
  else if n.settings.connectivityReject && !(← mayConnect n.toGridMap start goal) then
    return (.ok false, n)
  else
    match ← n.initial start goal with
    | .error reason => return (.error reason, n)
    | .ok s =>
        let (found, s) ← Buffers.rounds n.terrain goal (n.extent.area + 1) s
        return (found, n.keep s)

/-- The cells of the path that the latest search has found, from its start on. -/
def pathTo (n : Navigator) (goal : Point) : Option (List Point) := do
  let back ← Checked.walkBack n.cameFrom n.extent.area goal
  return back.reverse

-----------------------------------------------------------------------------------------
-- Queries
-----------------------------------------------------------------------------------------

/-- Checks the ends of a query and records them once both lie inside. -/
def checkEnds (n : Navigator) (start goal : Point)
    : Option (Except MapFault Unit × Navigator) := do
  match ← place n.extent start, ← place n.extent goal with
  | none, _ => return (.error (.outOfBounds start), n)
  | _, none => return (.error (.outOfBounds goal), n)
  | some _, some _ =>
      let n := { n with start := some start, goal := some goal }
      if !(← walkable n.terrain start) then return (.error (.blockedStart start), n)
      else if !(← walkable n.terrain goal) then return (.error (.blockedEnd goal), n)
      else return (.ok (), n)

/-- The path between two cells, smoothed if asked for, and the map afterwards. -/
def queryCells (n : Navigator) (smoothing : Bool) (start goal : Point)
    : Option (GridMap.Answer (List Point) × Navigator) := do
  match ← n.checkEnds start goal with
  | (.error reason, n) => return (.error reason, n)
  | (.ok _, n) =>
      match ← n.seek start goal with
      | (.error reason, n) => return (.error (.heap reason), n)
      | (.ok false, n) => return (.ok none, { n with latestPath := [] })
      | (.ok true, n) =>
          let cells ← n.pathTo goal
          let cells ← if smoothing then smooth n.terrain cells else some cells
          return (.ok (some cells), { n with latestPath := cells })

/-- The path between two cells, smoothed if the settings say so. -/
def findCells (n : Navigator) (start goal : Point)
    : Option (GridMap.Answer (List Point) × Navigator) :=
  n.queryCells n.settings.smooth start goal

/-- The path between two cells as the search finds it. -/
def findRawCells (n : Navigator) (start goal : Point)
    : Option (GridMap.Answer (List Point) × Navigator) :=
  n.queryCells false start goal

/-- The smoothed way between two positions. -/
def findWay (n : Navigator) (start goal : Position)
    : Option (GridMap.Answer (List Position) × Navigator) :=
  match n.locate start, n.locate goal with
  | .error reason, _ => some (.error reason, n)
  | _, .error reason => some (.error reason, n)
  | .ok p, .ok q =>
      if p = q then some (.ok (some [start, goal]), n)
      else do
        match ← n.queryCells true p q with
        | (.error reason, n) => return (.error reason, n)
        | (.ok none, n) => return (.ok none, n)
        | (.ok (some cells), n) =>
            match n.terrain.way n.settings.cornerOffset cells start goal with
            | .error _ => none
            | .ok way => return (.ok (some way), n)

-----------------------------------------------------------------------------------------
-- Requests
-----------------------------------------------------------------------------------------

/-- What a map can be asked for: the path between two cells, the same path before it is smoothed, or
the way between two positions.
-/
inductive Query where
  | cells (start goal : Point)
  | rawCells (start goal : Point)
  | way (start goal : Position)

/-- What a map replies to a query. -/
inductive Reply where
  | cells (answer : GridMap.Answer (List Point))
  | way (answer : GridMap.Answer (List Position))

/-- The reason for which a query was refused. -/
def Reply.fault? : Reply → Option MapFault
  | .cells (.error reason) => some reason
  | .way (.error reason) => some reason
  | _ => none

/-- The reply to a query and the map afterwards. -/
def ask (n : Navigator) : Query → Option (Reply × Navigator)
  | .cells start goal => (n.findCells start goal).map fun (answer, n) => (.cells answer, n)
  | .rawCells start goal => (n.findRawCells start goal).map fun (answer, n) => (.cells answer, n)
  | .way start goal => (n.findWay start goal).map fun (answer, n) => (.way answer, n)

/-- What can be done with a map: an edit, other settings, marking the parts, or a query. -/
inductive Request where
  | block (p : Point)
  | clear (p : Point)
  | blockAll (cells : List Point)
  | clearAll
  | configure (settings : Settings)
  | markComponents
  | query (q : Query)

/-- The map after a request, unless its numbers do not fit their words. -/
def perform (n : Navigator) : Request → Option Navigator
  | .block p => (n.block p).map Prod.snd
  | .clear p => (n.clear p).map Prod.snd
  | .blockAll cells => (n.blockAll cells).map Prod.snd
  | .clearAll => some n.clearAll
  | .configure settings => some (n.configure settings)
  | .markComponents => some n.markComponents
  | .query q => (n.ask q).map Prod.snd

/-- The map after requests one after the other. -/
def performAll (n : Navigator) (requests : List Request) : Option Navigator :=
  requests.foldlM perform n

end Navigator

end Wayfinding
