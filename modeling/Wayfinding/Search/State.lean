import Wayfinding.Cost
import Wayfinding.MapFault
import Wayfinding.FibonacciHeap.Basic
import Wayfinding.Search.Jump

/-!
The search for a cheapest path over jump points. Cells wait in the open set by the cost of the
way to them plus the octile cost from there to the goal; the least comes out first, is closed,
and puts its own jump points into the open set or improves them.
-/

namespace Wayfinding

/-- A cell in the open set: the cost of the way to it and the direction of the last run. -/
structure Node where
  cell : Point
  cost : Int
  heading : Option Direction
deriving DecidableEq

/-- What a search knows: the open set and the handles of its cells, the closed cells, and the cell
from which each one was reached.
-/
structure Search (e : Extent) where
  openSet : FibonacciHeap Int Node
  handles : Layer e (Option Nat)
  closed : Layer e Bool
  cameFrom : Layer e (Option Point)

namespace Search

variable {e : Extent}

/-- The search that has only the start in its open set. -/
def initial (e : Extent) (start goal : Point) : Except MapFault (Search e) := do
  let heap ← MapFault.ofHeap (FibonacciHeap.empty Int Node e.area)
  let estimate ← MapFault.orOverflow (octile? start goal)
  let inserted := heap.insert estimate ⟨start, 0, none⟩
  let handle ← MapFault.ofHeap inserted.1
  return ⟨inserted.2, (Layer.fill e none).set start (some handle), .fill e false, .fill e none⟩

/-- Puts a cell into the open set with a way to it from `source`. -/
def discover (s : Search e) (source : Node) (stop : Stop) (cost total : Int)
    : Except MapFault (Search e) := do
  let inserted := s.openSet.insert total ⟨stop.cell, cost, some stop.heading⟩
  let handle ← MapFault.ofHeap inserted.1
  return { s with
    openSet := inserted.2
    handles := s.handles.set stop.cell (some handle)
    cameFrom := s.cameFrom.set stop.cell (some source.cell) }

/-- Takes the way from `source` to a cell of the open set if it is cheaper than the known one. -/
def improve (s : Search e) (source : Node) (stop : Stop) (cost total : Int) (handle : Nat)
    : Except MapFault (Search e) :=
  match s.openSet.get? handle with
  | none => .error (.heap (.staleHandle handle))
  | some node =>
      if cost < node.cost then do
        let heap := s.openSet.modify handle fun n =>
          { n with cost := cost, heading := some stop.heading }
        let decreased := heap.decreaseKey handle total
        MapFault.ofHeap decreased.1
        return { s with
          openSet := decreased.2
          cameFrom := s.cameFrom.set stop.cell (some source.cell) }
      else .ok s

/-- Takes note of a way from `source` to a stop, unless the stop's cell is closed. -/
def consider (goal : Point) (source : Node) (s : Search e) (stop : Stop)
    : Except MapFault (Search e) :=
  if s.closed.get stop.cell false then .ok s
  else do
    let run ← MapFault.orOverflow (octile? source.cell stop.cell)
    let cost ← MapFault.orOverflow (int32? (source.cost + run))
    let rest ← MapFault.orOverflow (octile? stop.cell goal)
    let total ← MapFault.orOverflow (int32? (cost + rest))
    match s.handles.get stop.cell none with
    | none => s.discover source stop cost total
    | some handle => s.improve source stop cost total handle

/-- Takes the node out of the open set for good. -/
def close (s : Search e) (heap : FibonacciHeap Int Node) (node : Node) : Search e :=
  { s with
    openSet := heap
    handles := s.handles.set node.cell none
    closed := s.closed.set node.cell true }

end Search

/-- How a search stands after one round: nothing was left to look at, or the goal came out of the
open set, or there is more to do.
-/
inductive Progress (e : Extent) where
  | exhausted
  | reached (goal : Node) (state : Search e)
  | underway (state : Search e)

namespace Terrain

variable (t : Terrain)

/-- Considers the jump points of a node, one after the other. -/
def expand (goal : Point) (node : Node) (s : Search t.extent)
    : Except MapFault (Search t.extent) :=
  (t.jumps goal node.cell (t.directions node.cell node.heading)).stops.foldlM
    (Search.consider goal node) s

/-- One round of a search: closes the least node of the open set and expands it. -/
def advance (goal : Point) (s : Search t.extent) : Except MapFault (Progress t.extent) :=
  match s.openSet.pop? with
  | none => .ok .exhausted
  | some (least, heap) =>
      let s := s.close heap least.value
      if least.value.cell = goal then .ok (.reached least.value s)
      else (t.expand goal least.value s).map .underway

/-- At most `n` rounds of a search. -/
def rounds (goal : Point) : Nat → Search t.extent → Except MapFault (Progress t.extent)
  | 0, s => .ok (.underway s)
  | n + 1, s =>
      match t.advance goal s with
      | .ok (.underway s) => rounds goal n s
      | outcome => outcome

/-- The search from one walkable cell to another. A closed cell never opens again, so there is at
most one round for each cell and a last one that finds the open set empty.
-/
def search (start goal : Point) : Except MapFault (Progress t.extent) := do
  let s ← Search.initial t.extent start goal
  t.rounds goal (t.extent.area + 1) s

end Terrain

end Wayfinding
