import Wayfinding.Checked.Jump
import Wayfinding.FibonacciHeap.Arena
import Wayfinding.Search.State

/-!
The search for a cheapest path in machine words, with its open set in slots. What the search
refuses is an error; what would break it off is `none`, as for the jumps. `Proofs.Checked.Searches`
says that neither happens as long as the costs fit.
-/

namespace Wayfinding.Checked

/-- What a search knows: the open set and the handles of its cells, the closed cells, and the cell
from which each one was reached.
-/
structure State (e : Extent) where
  openSet : Arena Int Node
  handles : Layer e (Option Nat)
  closed : Layer e Bool
  cameFrom : Layer e (Option Point)

variable {e : Extent}

/-- The search that has only the start in its open set. -/
def initial (e : Extent) (start goal : Point) : Option (Except MapFault (State e)) :=
  match Arena.empty Int Node e.area with
  | .error reason => some (.error (.heap reason))
  | .ok heap => do
      let estimate ← octile start goal
      match ← heap.insert estimate ⟨start, 0, none⟩ with
      | (.error reason, _) => return .error (.heap reason)
      | (.ok handle, heap) =>
          let handles ← write (Layer.fill e none) start (some handle)
          return .ok ⟨heap, handles, .fill e false, .fill e none⟩

/-- Puts a cell into the open set with a way to it from `source`. -/
def discover (s : State e) (source : Node) (stop : Stop) (cost total : Int)
    : Option (Except MapFault (State e)) := do
  let cameFrom ← write s.cameFrom stop.cell (some source.cell)
  match ← s.openSet.insert total ⟨stop.cell, cost, some stop.heading⟩ with
  | (.error reason, _) => return .error (.heap reason)
  | (.ok handle, heap) =>
      let handles ← write s.handles stop.cell (some handle)
      return .ok { s with openSet := heap, handles := handles, cameFrom := cameFrom }

/-- Takes the way from `source` to a cell of the open set if it is cheaper than the known one. -/
def improve (s : State e) (source : Node) (stop : Stop) (cost total : Int) (handle : Nat)
    : Option (Except MapFault (State e)) :=
  match s.openSet.get? handle with
  | none => some (.error (.heap (.staleHandle handle)))
  | some node =>
      if cost < node.cost then do
        let heap := s.openSet.modify handle fun n =>
          { n with cost := cost, heading := some stop.heading }
        match ← heap.decreaseKey handle total with
        | (.error reason, _) => return .error (.heap reason)
        | (.ok _, heap) =>
            let cameFrom ← write s.cameFrom stop.cell (some source.cell)
            return .ok { s with openSet := heap, cameFrom := cameFrom }
      else some (.ok s)

/-- Takes note of a way from `source` to a stop, unless the stop's cell is closed. -/
def consider (goal : Point) (source : Node) (s : State e) (stop : Stop)
    : Option (Except MapFault (State e)) := do
  if ← read s.closed stop.cell then return .ok s
  else
    let run ← octile source.cell stop.cell
    let cost ← int32? (source.cost + run)
    let rest ← octile stop.cell goal
    let total ← int32? (cost + rest)
    match ← read s.handles stop.cell with
    | none => discover s source stop cost total
    | some handle => improve s source stop cost total handle

/-- Considers stops one after the other. -/
def considerAll (goal : Point) (source : Node)
    : List Stop → State e → Option (Except MapFault (State e))
  | [], s => some (.ok s)
  | stop :: stops, s => do
      match ← consider goal source s stop with
      | .error reason => return .error reason
      | .ok s => considerAll goal source stops s

/-- Takes the least node out of the open set for good, if there is one. -/
def close (s : State e) : Option (Option (Node × State e)) := do
  match ← s.openSet.pop with
  | (none, _) => return none
  | (some least, heap) =>
      let handles ← write s.handles least.value.cell none
      let closed ← write s.closed least.value.cell true
      return some (least.value, { s with openSet := heap, handles := handles, closed := closed })

section

variable (t : Terrain) (goal : Point)

/-- The jump points of a node. -/
def stops (node : Node) : Option (List Stop) := do
  let found ← jumps t goal node.cell (← directions t node.cell node.heading)
  return found.stops

/-- Considers the jump points of a node. -/
def expand (node : Node) (s : State t.extent) : Option (Except MapFault (State t.extent)) := do
  considerAll goal node (← stops t goal node) s

/-- Rounds of a search, within a number of rounds: each closes the least node of the open set and
expands it, until the goal is closed or there is none.
-/
def rounds : Nat → State t.extent → Option (Except MapFault (Option (State t.extent)))
  | 0, _ => none
  | n + 1, s => do
      match ← close s with
      | none => return .ok none
      | some (node, s) =>
          if node.cell = goal then return .ok (some s)
          else
            match ← expand t goal node s with
            | .error reason => return .error reason
            | .ok s => rounds n s

/-- The search from one walkable cell to another. -/
def search (start : Point) : Option (Except MapFault (Option (State t.extent))) := do
  match ← initial t.extent start goal with
  | .error reason => return .error reason
  | .ok s => rounds t goal (t.extent.area + 1) s

end

end Wayfinding.Checked
