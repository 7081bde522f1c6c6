import Wayfinding.Navigator.Query
import Wayfinding.Proofs.Checked.Jumps
import Wayfinding.Proofs.Navigator.Searches
import Wayfinding.Proofs.Queries.Frames
import Wayfinding.Proofs.Queries.Safety

/-! A query in the buffers of a map is the query of `Checked.Query`: it gives the same answer and
leaves the same map, whatever the buffers hold when it begins. A search resets them first, and the
path is read from what that search has written. So a query finds a path exactly where there is a
walk.
-/

namespace Wayfinding.Navigator

open Checked

variable (n : Navigator) (start goal : Point)

-----------------------------------------------------------------------------------------
-- Ends
-----------------------------------------------------------------------------------------

/-- Checking the ends does to the map what it does without buffers, and nothing to the buffers. -/
theorem checkEnds_eq
    : n.checkEnds start goal
      = some ((n.toGridMap.checkEnds start goal).map id fun m =>
          { n with start := m.start, goal := m.goal }) := by
  rw [checkEnds, GridMap.checkEnds, place_eq, place_eq, Extent.index?, Extent.index?,
    GridMap.checkInside, GridMap.checkInside]
  cases n.extent.contains start with
  | false => rfl
  | true =>
      cases n.extent.contains goal with
      | false => rfl
      | true =>
          have same : ({ n with start := some start, goal := some goal } : Navigator).terrain
              = n.terrain := rfl
          simp only [if_true, Option.bind_eq_bind, Option.bind_some, walkable_eq, GridMap.walkable,
            same]
          cases n.terrain.walkable start <;> cases n.terrain.walkable goal <;> rfl

-----------------------------------------------------------------------------------------
-- Searches
-----------------------------------------------------------------------------------------

/-- No search has left anything in the buffers. -/
structure Renewed (n : Navigator) : Prop where
  handles : n.handles = .fill n.extent none
  closed : n.closed = .fill n.extent false
  cameFrom : n.cameFrom = .fill n.extent none

theorem renewed_reset : n.reset.Renewed :=
  ⟨Layer.refill_eq_fill _ _, Layer.refill_eq_fill _ _, Layer.refill_eq_fill _ _⟩

/-- The map and the buffers but for those of the search are the same. -/
def Sought (n after : Navigator) : Prop :=
  ∃ handles closed cameFrom,
    after = { n with handles := handles, closed := closed, cameFrom := cameFrom }

/-- A search changes nothing but its own buffers. -/
theorem sought_seek {found : Except HeapFault Bool} {after : Navigator}
    (sought : n.seek start goal = some (found, after))
    : n.Sought after := by
  have cleared : n.Sought n.reset := ⟨_, _, _, rfl⟩
  simp only [seek] at sought
  split at sought
  · cases sought
    exact cleared
  · obtain ⟨connects, -, sought⟩ := Option.bind_eq_some_iff.mp sought
    split at sought
    · cases sought
      exact cleared
    · obtain ⟨reason | s, -, sought⟩ := Option.bind_eq_some_iff.mp sought
      · cases sought
        exact cleared
      · obtain ⟨⟨found, s⟩, -, sought⟩ := Option.bind_eq_some_iff.mp sought
        cases sought
        exact ⟨_, _, _, rfl⟩

variable {n start goal}

/-- In new buffers the search begins as it does without any. -/
theorem Renewed.initial_eq (renewed : n.Renewed)
    : (n.initial start goal).map (Except.mapError MapFault.heap)
      = Checked.initial n.terrain.extent start goal := by
  change _ = Checked.initial n.extent start goal
  simp only [initial, Checked.initial, renewed.handles, renewed.closed, renewed.cameFrom]
  cases Arena.empty Int Node n.extent.area with
  | error reason => rfl
  | ok heap =>
      cases Checked.octile start goal with
      | none => rfl
      | some estimate =>
          simp only [Option.bind_eq_bind, Option.bind_some]
          cases heap.insert estimate ⟨start, 0, none⟩ with
          | none => rfl
          | some inserted =>
              obtain ⟨reason | handle, heap⟩ := inserted
              · rfl
              · simp only [Option.bind_some]
                cases write (Layer.fill n.extent none) start (some handle) <;> rfl

/-- The path to a cell that no search has reached is that cell. -/
theorem Renewed.pathTo_eq (renewed : n.Renewed) (inside : n.extent.contains goal = true)
    : n.pathTo goal = some [goal] := by
  obtain ⟨steps, area⟩ := Nat.exists_eq_succ_of_ne_zero n.extent.area_pos.ne'
  have untold : (Layer.fill n.extent (none : Option Point)).get goal none = none := by
    rw [Layer.get_fill, if_pos inside]
  simp only [pathTo, renewed.cameFrom, area, Checked.walkBack, read_eq _ inside none, untold]
  rfl

/-- What a query learns from a search: the path is read from the buffers that it leaves. -/
def learn (goal : Point)
    : Except HeapFault Bool × Navigator → Option (GridMap.Answer (List Point))
  | (.error reason, _) => some (.error (.heap reason))
  | (.ok false, _) => some (.ok none)
  | (.ok true, n) => (n.pathTo goal).map fun cells => .ok (some cells)

/-- Nothing is read of what the buffers held before: the search sees them renewed, and the path
leads through cells that it has reached itself.
-/
theorem seek_learn (inside : n.extent.contains goal = true)
    : (n.seek start goal).bind (learn goal) = route n.toGridMap start goal := by
  have renewed := n.renewed_reset
  replace inside : n.reset.extent.contains goal = true := inside
  change _ = route n.reset.toGridMap start goal
  rw [seek, route]
  generalize n.reset = n at renewed inside
  dsimp only
  split
  case isTrue same =>
    subst same
    simp only [Option.pure_def, Option.bind_some, learn, renewed.pathTo_eq inside, Option.map_some]
  case isFalse =>
    simp only [Option.bind_eq_bind, Option.bind_assoc]
    congr 1
    funext connects
    split
    · rfl
    · rw [search, ← renewed.initial_eq]
      obtain _ | reason | s := n.initial start goal
      · rfl
      · rfl
      · have concluded := Buffers.rounds_concluded goal n.terrain (n.extent.area + 1) s
        change ((Buffers.rounds n.terrain goal (n.extent.area + 1) s).bind fun r =>
            some (r.1, n.keep r.2)).bind (learn goal)
          = (Checked.rounds n.terrain goal (n.extent.area + 1) s).bind _
        rw [← concluded]
        obtain _ | ⟨reason | found, s⟩ := Buffers.rounds n.terrain goal (n.extent.area + 1) s
        · rfl
        · rfl
        · cases found with
          | false => rfl
          | true => exact Option.map_eq_bind

-----------------------------------------------------------------------------------------
-- Queries
-----------------------------------------------------------------------------------------

/-- A query gives the answer that the map gives without buffers, and leaves the same map. -/
theorem queryCells_eq (n : Navigator) (smoothing : Bool) (start goal : Point)
    : (n.queryCells smoothing start goal).map (Prod.map id toGridMap)
      = Checked.queryCells n.toGridMap smoothing start goal := by
  rw [queryCells, Checked.queryCells, checkEnds_eq, Checked.checkEnds_eq]
  rcases checked : n.toGridMap.checkEnds start goal with ⟨_ | _, m⟩
  case error reason =>
    obtain ⟨first, last, ended⟩ := n.toGridMap.exists_checkEnds start goal
    rw [checked] at ended
    cases ended
    rfl
  case ok =>
    obtain ⟨free, target⟩ := GridMap.walkable_of_checkEnds checked
    rw [GridMap.checkEnds_of_walkable free target] at checked
    cases checked
    have inside : n.extent.contains goal = true := Terrain.contains_of_walkable target
    let asked : Navigator := { n with start := some start, goal := some goal }
    have learned : (asked.seek start goal).bind (learn goal) = route asked.toGridMap start goal :=
      seek_learn inside
    simp only [Option.bind_eq_bind, Option.bind_some, Prod.map, id]
    change Option.map _ ((asked.seek start goal).bind _) = (route asked.toGridMap start goal).bind _
    rw [← learned]
    rcases sought : asked.seek start goal with _ | ⟨reason | found, after⟩
    · rfl
    · obtain ⟨_, _, _, rfl⟩ := sought_seek asked start goal sought
      rfl
    · obtain ⟨_, _, _, rfl⟩ := sought_seek asked start goal sought
      cases found with
      | false => rfl
      | true =>
          simp only [Option.bind_some, learn]
          generalize Navigator.pathTo _ goal = path
          cases path with
          | none => rfl
          | some cells =>
              cases smoothing with
              | false => rfl
              | true =>
                  change Option.map _ ((smooth asked.terrain cells).bind _)
                    = (smooth asked.terrain cells).bind _
                  cases smooth asked.terrain cells <;> rfl

/-- As long as the costs fit, a query does not break off, whatever the buffers hold. -/
theorem queryCells_of_costsFit (n : Navigator) (fits : n.extent.CostsFit) (smoothing : Bool)
    (start goal : Point)
    : (n.queryCells smoothing start goal).map (Prod.map id toGridMap)
      = some (n.toGridMap.queryCells smoothing start goal) := by
  rw [queryCells_eq, Checked.queryCells_eq fits]

/-- So it comes to an answer, and it is that of the map. -/
theorem exists_queryCells (n : Navigator) (fits : n.extent.CostsFit) (smoothing : Bool)
    (start goal : Point)
    : ∃ answer after,
        n.queryCells smoothing start goal = some (answer, after)
        ∧ n.toGridMap.queryCells smoothing start goal = (answer, after.toGridMap) := by
  obtain ⟨⟨answer, after⟩, asked, same⟩ :=
    Option.map_eq_some_iff.mp (n.queryCells_of_costsFit fits smoothing start goal)
  exact ⟨answer, after, asked, same.symm⟩

/-- A map whose buffers hold what no search has left there. -/
def disordered (m : GridMap) : Navigator :=
  { ofMap m with
    handles := .fill m.extent (some 0)
    closed := .fill m.extent true
    cameFrom := .fill m.extent (some ⟨0, 0⟩) }

/-- Unless the marked parts may speak against a way, a query between walkable cells finds a path if
there is a walk, and finds that there is none if there is no walk.
-/
theorem findRawCells_complete (n : Navigator) (fits : n.extent.CostsFit)
    (unrejected : n.components = none ∨ n.settings.connectivityReject = false)
    (freeStart : n.walkable start = true) (freeGoal : n.walkable goal = true)
    : ((∃ path after, n.findRawCells start goal = some (.ok (some path), after))
        ↔ ∃ c, n.terrain.Walk start goal c)
      ∧ ((∃ after, n.findRawCells start goal = some (.ok none, after))
        ↔ ¬ ∃ c, n.terrain.Walk start goal c) := by
  obtain ⟨answer, after, asked, same⟩ := n.exists_queryCells fits false start goal
  replace same : (n.toGridMap.findRawCells start goal).1 = answer := congrArg Prod.fst same
  obtain ⟨found, nowhere⟩ := GridMap.findRawCells_iff_walk fits unrejected freeStart freeGoal
  rw [same] at found nowhere
  rw [findRawCells, asked]
  refine ⟨Iff.trans ?_ found, Iff.trans ?_ nowhere⟩ <;> simp

/-- A map that is divided by a row of obstacles. -/
def divided : GridMap where
  extent := ⟨⟨2, 4⟩, by decide, by decide, by decide, by decide⟩
  blocked := ((Layer.fill _ false).set ⟨0, 2⟩ true).set ⟨1, 2⟩ true
  settings := {}
  components := none
  start := none
  goal := none
  latestPath := []

/-- There is a way through the squeeze and none through the row of obstacles. -/
theorem findRawCells_complete_divided
    : (disordered GridMap.squeeze).extent.CostsFit
      ∧ (disordered GridMap.squeeze).settings.connectivityReject = false
      ∧ (∃ c, (disordered GridMap.squeeze).terrain.Walk ⟨0, 0⟩ ⟨3, 0⟩ c)
      ∧ (∃ after,
          (disordered GridMap.squeeze).findRawCells ⟨0, 0⟩ ⟨3, 0⟩
          = some (.ok (some [⟨0, 0⟩, ⟨0, 1⟩, ⟨1, 2⟩, ⟨3, 0⟩]), after))
      ∧ (disordered divided).extent.CostsFit
      ∧ (disordered divided).components = none
      ∧ (¬ ∃ c, (disordered divided).terrain.Walk ⟨0, 0⟩ ⟨1, 3⟩ c)
      ∧ ∃ after, (disordered divided).findRawCells ⟨0, 0⟩ ⟨1, 3⟩ = some (.ok none, after) := by
  have fits : (disordered GridMap.squeeze).extent.CostsFit := by decide
  have small : (disordered divided).extent.CostsFit := by decide
  have seen : ((disordered GridMap.squeeze).findRawCells ⟨0, 0⟩ ⟨3, 0⟩).map Prod.fst
      = some (.ok (some [⟨0, 0⟩, ⟨0, 1⟩, ⟨1, 2⟩, ⟨3, 0⟩])) := by decide +kernel
  have unseen : ((disordered divided).findRawCells ⟨0, 0⟩ ⟨1, 3⟩).map Prod.fst
      = some (.ok none) := by decide +kernel
  have free : (disordered GridMap.squeeze).walkable ⟨0, 0⟩ = true := by decide +kernel
  have target : (disordered GridMap.squeeze).walkable ⟨3, 0⟩ = true := by decide +kernel
  have north : (disordered divided).walkable ⟨0, 0⟩ = true := by decide +kernel
  have south : (disordered divided).walkable ⟨1, 3⟩ = true := by decide +kernel
  obtain ⟨found, -⟩ := findRawCells_complete _ fits (.inr rfl) free target
  obtain ⟨-, nowhere⟩ := findRawCells_complete _ small (.inl rfl) north south
  obtain ⟨⟨_, after⟩, asked, rfl⟩ := Option.map_eq_some_iff.mp seen
  obtain ⟨⟨_, left⟩, sought, rfl⟩ := Option.map_eq_some_iff.mp unseen
  exact ⟨fits, rfl, found.mp ⟨_, after, asked⟩, ⟨after, asked⟩, small, rfl,
    nowhere.mp ⟨left, sought⟩, left, sought⟩

end Wayfinding.Navigator
