import Wayfinding.Checked.Jump
import Wayfinding.GridMap.Basic

/-!
Maps together with the buffers that their operations work in. The buffers live as long as the map:
an operation finds there what the one before has left, whatever came of it. `Proofs.Navigator` says
that this makes no difference.
-/

namespace Wayfinding

/-- A map with the buffers of its operations: the handles of the cells in the open set, the closed
cells, and the cell from which each one was reached, all as the latest search left them, and the
cells that were pending when the latest part had been marked.
-/
structure Navigator extends GridMap where
  handles : Layer extent (Option Nat)
  closed : Layer extent Bool
  cameFrom : Layer extent (Option Point)
  queue : List Point

namespace Navigator

/-- The map with new buffers. -/
def ofMap (m : GridMap) : Navigator :=
  { m with
    handles := .fill m.extent none
    closed := .fill m.extent false
    cameFrom := .fill m.extent none
    queue := [] }

/-- A map of this size without obstacles. -/
def create (width height : Int) (settings : Settings) : Except MapFault Navigator :=
  (GridMap.create width height settings).map ofMap

-----------------------------------------------------------------------------------------
-- Edits
-----------------------------------------------------------------------------------------

/-- The map with other settings. -/
def configure (n : Navigator) (settings : Settings) : Navigator :=
  { n with settings := settings }

/-- The place of a cell in the layers of the map, unless the cell lies outside. -/
def checkPlace (n : Navigator) (p : Point) : Option (Except MapFault Nat) := do
  match ← Checked.place n.extent p with
  | none => return .error (.outOfBounds p)
  | some i => return .ok i

/-- The places of listed cells, unless one of them lies outside. -/
def checkPlaces (n : Navigator) : List Point → Option (Except MapFault (List Nat))
  | [] => some (.ok [])
  | p :: cells => do
      match ← n.checkPlace p with
      | .error reason => return .error reason
      | .ok i => return (← n.checkPlaces cells).map (i :: ·)

/-- The map with the cell at a place blocked or cleared. -/
def put (n : Navigator) (value : Bool) (i : Nat) : Option Navigator := do
  return { n with blocked := ← Checked.put n.blocked i value }

/-- Blocks or clears a cell that lies inside. -/
def setBlocked (n : Navigator) (value : Bool) (p : Point)
    : Option (Except MapFault Unit × Navigator) := do
  match ← n.checkPlace p with
  | .error reason => return (.error reason, n)
  | .ok i => return (.ok (), ← n.put value i)

/-- Blocks a cell. -/
def block (n : Navigator) (p : Point) : Option (Except MapFault Unit × Navigator) :=
  n.setBlocked true p

/-- Clears a cell. -/
def clear (n : Navigator) (p : Point) : Option (Except MapFault Unit × Navigator) :=
  n.setBlocked false p

/-- Blocks all listed cells, one after the other, once the places of all of them are known. -/
def blockAll (n : Navigator) (cells : List Point)
    : Option (Except MapFault Unit × Navigator) := do
  match ← n.checkPlaces cells with
  | .error reason => return (.error reason, n)
  | .ok places => return (.ok (), ← places.foldlM (fun n i => n.put true i) n)

/-- The map with all cells cleared. -/
def clearAll (n : Navigator) : Navigator :=
  { n with blocked := n.blocked.refill false }

-----------------------------------------------------------------------------------------
-- Connected parts
-----------------------------------------------------------------------------------------

/-- Labels everything that the pending cells lead to, as `Terrain.spread` does, and answers with the
cells that are still pending too.
-/
def spread (t : Terrain) (label : Nat)
    : Nat → List Point → Layer t.extent Nat → List Point × Layer t.extent Nat
  | 0, pending, labels => (pending, labels)
  | _ + 1, [], labels => ([], labels)
  | rounds + 1, p :: pending, labels =>
      let fresh := t.unlabelled labels p
      spread t label rounds (pending ++ fresh) (fresh.foldl (fun l q => l.set q label) labels)

/-- Starts a new part at a walkable cell without a label, in the emptied queue. -/
def addComponent (t : Terrain) (marking : List Point × Components t.extent) (p : Point)
    : List Point × Components t.extent :=
  let (_, c) := marking
  if t.walkable p && c.labels.get p 0 == 0 then
    let label := c.count + 1
    let (pending, labels) := spread t label t.extent.area [p] (c.labels.set p label)
    (pending, ⟨label, labels⟩)
  else marking

/-- The labels of the cells, all taken back. -/
def freshLabels (n : Navigator) : Layer n.extent Nat :=
  match n.components with
  | none => .fill n.extent 0
  | some c => c.labels.refill 0

/-- The map with its connected parts marked as they are now. -/
def markComponents (n : Navigator) : Navigator :=
  let (queue, c) := n.extent.points.foldl (addComponent n.terrain) (n.queue, ⟨0, n.freshLabels⟩)
  { n with components := some c, queue := queue }

end Navigator

end Wayfinding
