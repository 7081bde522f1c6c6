import Wayfinding.GridMap.Basic

/-!
Maps in plain text: one line for each row, with a blank between the cells.
-/

namespace Wayfinding

/-- The cells of an extent, a list for each row. -/
def Extent.rows (e : Extent) : List (List Point) :=
  (List.range e.height.toNat).map fun (y : Nat) =>
    (List.range e.width.toNat).map fun (x : Nat) => ⟨x, y⟩

/-- A text for each cell, with a blank between cells and a line break between rows. -/
def Extent.table (e : Extent) (cell : Point → String) : String :=
  "\n".intercalate (e.rows.map fun row => " ".intercalate (row.map cell))

namespace GridMap

/-- The mark of a cell: an obstacle and the ends of the latest query, one after the other, and a
point for a cell that is none of these.
-/
def mark (m : GridMap) (p : Point) : String :=
  let marks :=
    (if m.walkable p then "" else "*")
      ++ (if m.start = some p then "S" else "")
      ++ (if m.goal = some p then "E" else "")
  if marks.isEmpty then "." else marks

/-- The obstacles of a map and the ends of the latest query. -/
def picture (m : GridMap) : String :=
  m.extent.table m.mark

/-- The numbers of the connected parts, with an asterisk for a cell of none. -/
def componentPicture (m : GridMap) : String :=
  match m.components with
  | none => "connectivity not marked"
  | some c => m.extent.table fun p => if c.label p = 0 then "*" else Decimal.ofNat (c.label p)

end GridMap

end Wayfinding
