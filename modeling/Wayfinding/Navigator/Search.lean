import Wayfinding.Checked.Search

/-!
The search in machine words, step by step with the state that it leaves behind: where a step is
refused, the buffers stay as they are at that moment. `Proofs.Navigator.Searches` says that in all
else it is the search of `Checked.Search`.
-/

namespace Wayfinding.Checked

/-- What comes of a part of a search, and the state that it leaves behind. -/
abbrev Outcome (e : Extent) (α : Type) :=
  Except HeapFault α × State e

namespace Buffers

variable {e : Extent}

/-- Puts a cell into the open set with a way to it from `source`. -/
def discover : State e → Node → Stop → Int → Int → Option (Outcome e Unit)
  | ⟨openSet, handles, closed, cameFrom⟩, source, stop, cost, total => do
      let cameFrom ← write cameFrom stop.cell (some source.cell)
      match ← openSet.insert total ⟨stop.cell, cost, some stop.heading⟩ with
      | (.error reason, heap) => return (.error reason, ⟨heap, handles, closed, cameFrom⟩)
      | (.ok handle, heap) =>
          let handles ← write handles stop.cell (some handle)
          return (.ok (), ⟨heap, handles, closed, cameFrom⟩)

/-- Takes the way from `source` to a cell of the open set if it is cheaper than the known one. -/
def improve : State e → Node → Stop → Int → Int → Nat → Option (Outcome e Unit)
  | ⟨openSet, handles, closed, cameFrom⟩, source, stop, cost, total, handle =>
      match openSet.get? handle with
      | none => some (.error (.staleHandle handle), ⟨openSet, handles, closed, cameFrom⟩)
      | some node =>
          if cost < node.cost then do
            let heap := openSet.modify handle fun n =>
              { n with cost := cost, heading := some stop.heading }
            match ← heap.decreaseKey handle total with
            | (.error reason, heap) => return (.error reason, ⟨heap, handles, closed, cameFrom⟩)
            | (.ok _, heap) =>
                let cameFrom ← write cameFrom stop.cell (some source.cell)
                return (.ok (), ⟨heap, handles, closed, cameFrom⟩)
          else some (.ok (), ⟨openSet, handles, closed, cameFrom⟩)

/-- Takes note of a way from `source` to a stop, unless the stop's cell is closed. -/
def consider (goal : Point) (source : Node) (s : State e) (stop : Stop)
    : Option (Outcome e Unit) := do
  if ← read s.closed stop.cell then return (.ok (), s)
  else
    let run ← octile source.cell stop.cell
    let cost ← int32? (source.cost + run)
    let rest ← octile stop.cell goal
    let total ← int32? (cost + rest)
    match ← read s.handles stop.cell with
    | none => discover s source stop cost total
    | some handle => improve s source stop cost total handle

/-- Considers stops one after the other. -/
def considerAll (goal : Point) (source : Node) : List Stop → State e → Option (Outcome e Unit)
  | [], s => some (.ok (), s)
  | stop :: stops, s => do
      match ← consider goal source s stop with
      | (.error reason, s) => return (.error reason, s)
      | (.ok _, s) => considerAll goal source stops s

/-- Takes the least node out of the open set for good, if there is one. -/
def close : State e → Option (Option Node × State e)
  | ⟨openSet, handles, closed, cameFrom⟩ => do
      match ← openSet.pop with
      | (none, heap) => return (none, ⟨heap, handles, closed, cameFrom⟩)
      | (some least, heap) =>
          let handles ← write handles least.value.cell none
          let closed ← write closed least.value.cell true
          return (some least.value, ⟨heap, handles, closed, cameFrom⟩)

variable (t : Terrain) (goal : Point)

/-- Considers the jump points of a node. -/
def expand (node : Node) (s : State t.extent) : Option (Outcome t.extent Unit) := do
  considerAll goal node (← stops t goal node) s

/-- Rounds of a search, within a number of rounds, and whether the goal was closed in the end. -/
def rounds : Nat → State t.extent → Option (Outcome t.extent Bool)
  | 0, _ => none
  | n + 1, s => do
      match ← close s with
      | (none, s) => return (.ok false, s)
      | (some node, s) =>
          if node.cell = goal then return (.ok true, s)
          else
            match ← expand t goal node s with
            | (.error reason, s) => return (.error reason, s)
            | (.ok _, s) => rounds n s

end Buffers

end Wayfinding.Checked
