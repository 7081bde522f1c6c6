import Wayfinding.Drawing
import Wayfinding.GridMap.Query
import Wayfinding.Snapshot

/-!
A tour of a map: its connected parts, and three paths between open cells with their drawings.
-/

namespace Wayfinding

/-- What a program run leaves: its exit code and what it wrote to either stream. -/
structure RunResult where
  code : Nat
  output : String
  errors : String
deriving DecidableEq

namespace Tour

/-- A map read from the text of a file: a snapshot if the file is named so, and a drawing if not. -/
def readMap (snapshot : Bool) (text : String) : Except ReadFault GridMap :=
  if snapshot then GridMap.load text else Drawing.read text

/-- The ends of the three paths: from the first open cell to the last, between the thirds, and from
the middle back to the second. There are none where fewer than two cells are open.
-/
def legs (cells : List Point) : List (Point × Point) :=
  let n := cells.length
  let cell (i : Nat) := cells.getD i .zero
  if n < 2 then []
  else [(cell 0, cell (n - 1)), (cell (n / 3), cell (2 * n / 3)), (cell (n / 2), cell 1)]

/-- The position in a cell, a quarter to the east and three quarters to the south. -/
def inside (p : Point) : Position :=
  ⟨single p.x + 0.25, single p.y + 0.75⟩

/-- The cost of a path in writing. -/
def costText (path : List Point) : Except MapFault String :=
  MapFault.orOverflow ((pathCost? path).map Decimal.ofInt)

/-- What is written about a path between cells, and the map after the queries for it. -/
def cellLines (m : GridMap) (p q : Point) : Except MapFault (List String × GridMap) :=
  match m.findCells p q with
  | (.error e, _) => .error e
  | (.ok none, m) => .ok (["  unreachable"], m)
  | (.ok (some path), m) => do
      let cost ← costText path
      match m.findRawCells p q with
      | (.error e, _) => .error e
      | (.ok raw, m) =>
          let raw := raw.getD []
          let rawCost ← costText raw
          return ([s!"  {Decimal.ofNat path.length} waypoints, cost {cost}",
            s!"  raw cost {rawCost}", Drawing.write m raw], m)

/-- What is written about a way between positions, and the map after the query for it. -/
def positionLines (m : GridMap) (p q : Point) : Except MapFault (List String × GridMap) :=
  match m.findWay p.center (inside q) with
  | (.error e, _) => .error e
  | (.ok none, m) => .ok ([], m)
  | (.ok (some way), m) => .ok (["  continuous: " ++ " ".intercalate (way.map Position.text)], m)

/-- What is written about one leg, and the map after its queries. The lines that precede a fault
are kept.
-/
def legLines (m : GridMap) (p q : Point) : List String × Except MapFault GridMap :=
  let title := p.text ++ " -> " ++ q.text
  match cellLines m p q with
  | .error e => ([title], .error e)
  | .ok (first, m) =>
      match positionLines m p q with
      | .error e => (title :: first, .error e)
      | .ok (second, m) => (title :: first ++ second ++ [""], .ok m)

/-- What is written about some legs, up to the first fault. -/
def legsLines (m : GridMap) : List (Point × Point) → List String × Option MapFault
  | [] => ([], none)
  | (p, q) :: rest =>
      match legLines m p q with
      | (ls, .error e) => (ls, some e)
      | (ls, .ok m) =>
          let (more, fault) := legsLines m rest
          (ls ++ more, fault)

/-- What is written about a map, up to the first fault. -/
def mapLines (m : GridMap) : List String × Option MapFault :=
  let m := m.markComponents
  let intro :=
    [s!"{Decimal.ofInt m.extent.width}x{Decimal.ofInt m.extent.height} map, components:",
      m.componentPicture, ""]
  let cells := m.terrain.openCells
  if cells.length < 2 then (intro ++ ["not enough open cells"], none)
  else
    let (ls, fault) := legsLines m (legs cells)
    (intro ++ ls, fault)

/-- Lines, each with a line feed at its end. -/
def text (ls : List String) : String :=
  String.join (ls.map fun l => l ++ "\n")

/-- The line that reports a fault. -/
def report (message : String) : String :=
  "Error: " ++ message ++ "\n"

/-- A run on the text of a file. -/
def run (snapshot : Bool) (content : String) : RunResult :=
  match readMap snapshot content with
  | .error e => ⟨1, "", report e.message⟩
  | .ok m =>
      match mapLines m with
      | (ls, none) => ⟨0, text ls, ""⟩
      | (ls, some e) => ⟨1, text ls, report e.message⟩

end Tour

end Wayfinding
