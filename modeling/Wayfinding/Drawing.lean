import Wayfinding.ReadFault
import Wayfinding.GridMap.Render
import Wayfinding.Text.Blank

/-!
Maps drawn with characters: a number sign for an obstacle and a point for an open cell. Reading a
drawing takes its lines without the blanks around them and leaves blank lines out.
-/

namespace Wayfinding

namespace Drawing

/-- The first fault of a row: its width, or its first unknown character. -/
def rowFault? (width y : Nat) (row : List Char) : Option ReadFault :=
  if row.length ≠ width then some (.ragged y)
  else
    (row.zipIdx.find? fun (c, _) => c != '#' && c != '.').map fun (c, x) => .badChar c ⟨x, y⟩

/-- The cells of a row that are drawn as obstacles. -/
def rowObstacles (y : Nat) (row : List Char) : List Point :=
  row.zipIdx.filterMap fun (c, x) => if c = '#' then some ⟨x, y⟩ else none

/-- The map that rows of characters draw. -/
def ofRows (rows : List (List Char)) : Except ReadFault GridMap :=
  match rows with
  | [] => .error .empty
  | first :: _ =>
      match rows.zipIdx.findSome? fun (row, y) => rowFault? first.length y row with
      | some fault => .error fault
      | none =>
          ReadFault.ofMap (GridMap.ofObstacles first.length rows.length {}
            (rows.zipIdx.flatMap fun (row, y) => rowObstacles y row))

/-- The map that a text draws. -/
def read (text : String) : Except ReadFault GridMap :=
  ofRows (Text.trimmedLines text.toList)

/-- The character of a cell: an obstacle, a cell of the path, or another open cell. -/
def symbol (m : GridMap) (path : List Point) (p : Point) : Char :=
  if !m.walkable p then '#' else if path.contains p then 'o' else '.'

/-- The rows of a map with a path. -/
def rows (m : GridMap) (path : List Point) : List (List Char) :=
  m.extent.rows.map fun row => row.map (symbol m path)

/-- The drawing of a map with a path. -/
def write (m : GridMap) (path : List Point) : String :=
  String.ofList (['\n'].intercalate (rows m path))

end Drawing

end Wayfinding
