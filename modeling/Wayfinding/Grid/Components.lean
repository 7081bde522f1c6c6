import Wayfinding.Grid.Terrain

/-!
Numbering the connected parts of a terrain. Two walkable cells are connected when steps along the
axes lead from one to the other over walkable cells. The parts are numbered from one in the order
of their first cells, row by row.
-/

namespace Wayfinding

/-- The number of connected parts and, for every cell, the number of its part; zero for a cell of
none.
-/
structure Components (e : Extent) where
  count : Nat
  labels : Layer e Nat
deriving DecidableEq

namespace Terrain

/-- The walkable edge neighbours of a cell that have no label yet. -/
def unlabelled (t : Terrain) (labels : Layer t.extent Nat) (p : Point) : List Point :=
  p.neighbors.filter fun q => t.walkable q && labels.get q 0 == 0

/-- Labels everything that the pending cells lead to. Each round takes up the cell that has been
pending longest, and no cell is ever pending twice, so a round for each cell of the extent is
enough.
-/
def spread (t : Terrain) (label : Nat)
    : Nat → List Point → Layer t.extent Nat → Layer t.extent Nat
  | 0, _, labels => labels
  | _ + 1, [], labels => labels
  | rounds + 1, p :: pending, labels =>
      let fresh := t.unlabelled labels p
      t.spread label rounds (pending ++ fresh) (fresh.foldl (fun l q => l.set q label) labels)

/-- Starts a new part at a walkable cell without a label. -/
def addComponent (t : Terrain) (c : Components t.extent) (p : Point) : Components t.extent :=
  if t.walkable p && c.labels.get p 0 == 0 then
    let label := c.count + 1
    ⟨label, t.spread label t.extent.area [p] (c.labels.set p label)⟩
  else c

/-- The connected parts, numbered in the order of their first cells. -/
def components (t : Terrain) : Components t.extent :=
  t.extent.points.foldl t.addComponent ⟨0, .fill t.extent 0⟩

end Terrain

/-- The number of the part that a cell belongs to. -/
def Components.label (c : Components e) (p : Point) : Nat :=
  c.labels.get p 0

/-- Both cells belong to the same part. -/
def Components.joined (c : Components e) (p q : Point) : Bool :=
  c.label p != 0 && c.label p == c.label q

end Wayfinding
