import Wayfinding.MapFault
import Wayfinding.Grid.Components
import Wayfinding.Position

/-!
Navigation maps: a terrain with its settings, the connected parts if they have been marked, and
what the latest queries left behind. An edit gives its outcome and the map afterwards.
-/

namespace Wayfinding

/-- The settings of a map: whether paths between cells are smoothed, whether queries between
different connected parts are rejected at once, and how far off a corner a detour is tested.
-/
structure Settings where
  smooth : Bool := true
  connectivityReject : Bool := true
  cornerOffset : Float32 := 0.1
deriving DecidableEq

/-- An extent with its obstacles, the settings, the connected parts as they were when they were
last marked, the ends of the latest query that had both inside, and the cells of the latest path.
-/
structure GridMap where
  extent : Extent
  blocked : Layer extent Bool
  settings : Settings
  components : Option (Components extent)
  start : Option Point
  goal : Option Point
  latestPath : List Point
deriving DecidableEq

namespace GridMap

/-- A map of this size without obstacles. -/
def create (width height : Int) (settings : Settings) : Except MapFault GridMap :=
  match Extent.ofSize? width height with
  | none => .error (.invalidSize width height)
  | some e => .ok ⟨e, .fill e false, settings, none, none, none, []⟩

/-- The map with other settings. -/
def configure (m : GridMap) (settings : Settings) : GridMap :=
  { m with settings := settings }

/-- The obstacles of a map. -/
def terrain (m : GridMap) : Terrain :=
  ⟨m.extent, m.blocked⟩

/-- Whether a cell lies inside and is not blocked. -/
def walkable (m : GridMap) (p : Point) : Bool :=
  m.terrain.walkable p

/-- Accepts cells that lie inside. -/
def checkInside (m : GridMap) (p : Point) : Except MapFault Unit :=
  if m.extent.contains p then .ok () else .error (.outOfBounds p)

/-- Whether a cell of the map is blocked. -/
def isBlocked (m : GridMap) (p : Point) : Except MapFault Bool :=
  (m.checkInside p).map fun _ => !m.walkable p

/-- Blocks or clears a cell that lies inside. -/
def setBlocked (m : GridMap) (value : Bool) (p : Point) : Except MapFault Unit × GridMap :=
  match m.checkInside p with
  | .error reason => (.error reason, m)
  | .ok _ => (.ok (), { m with blocked := m.blocked.set p value })

/-- Blocks a cell. -/
def block (m : GridMap) (p : Point) : Except MapFault Unit × GridMap :=
  m.setBlocked true p

/-- Clears a cell. -/
def clear (m : GridMap) (p : Point) : Except MapFault Unit × GridMap :=
  m.setBlocked false p

/-- Blocks all listed cells. -/
def blockAll (m : GridMap) (cells : List Point) : Except MapFault Unit × GridMap :=
  match cells.forM m.checkInside with
  | .error reason => (.error reason, m)
  | .ok _ => (.ok (), { m with blocked := cells.foldl (fun l p => l.set p true) m.blocked })

/-- The map with all cells cleared. -/
def clearAll (m : GridMap) : GridMap :=
  { m with blocked := .fill m.extent false }

/-- A map of this size with obstacles. -/
def ofObstacles (width height : Int) (settings : Settings) (cells : List Point)
    : Except MapFault GridMap := do
  let (outcome, m) := (← create width height settings).blockAll cells
  outcome
  return m

/-- Obstacles are listed as far as an edit of the map without any takes them. -/
theorem ofObstacles_eq_ok {width height : Int} {settings : Settings} {cells : List Point}
    {m : GridMap}
    : ofObstacles width height settings cells = .ok m
      ↔ ∃ blank, create width height settings = .ok blank ∧ blank.blockAll cells = (.ok (), m) := by
  rw [ofObstacles]
  cases create width height settings with
  | error reason => simp [bind, Except.bind]
  | ok blank =>
      rcases made : blank.blockAll cells with ⟨_ | _, after⟩
      · simp [bind, Except.bind, made]
      · simp [bind, Except.bind, pure, Except.pure, made]

/-- A map of this size whose obstacles a test picks. -/
def scatter (width height : Int) (pick : Point → Bool) : Except MapFault GridMap := do
  let m ← create width height {}
  let (outcome, m) := m.blockAll (m.extent.points.filter pick)
  outcome
  return m

/-- The map with its connected parts marked as they are now. -/
def markComponents (m : GridMap) : GridMap :=
  { m with components := some m.terrain.components }

/-- The number of a cell's connected part: zero for a cell that was blocked when the parts were
last marked, and for all cells before that.
-/
def componentOf (m : GridMap) (p : Point) : Except MapFault Nat :=
  (m.checkInside p).map fun _ => (m.components.map (·.label p)).getD 0

/-- The marked parts do not speak against a way between two cells inside. -/
def mayConnect (m : GridMap) (p q : Point) : Bool :=
  match m.components with
  | none => true
  | some c => c.joined p q

/-- Both cells lie inside, and the marked parts do not speak against a way between them. -/
def connected (m : GridMap) (p q : Point) : Bool :=
  m.extent.contains p && m.extent.contains q && m.mayConnect p q

end GridMap

end Wayfinding
