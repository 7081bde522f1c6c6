import Wayfinding.Proofs.Checked.Paths
import Wayfinding.Proofs.Queries.RawPaths

/-! Queries between cells never break off. As long as the costs fit, a query in machine words gives
the answer of the map, whatever its ends are, and no fault of the open set and no overflow is among
the answers.
-/

namespace Wayfinding

namespace Checked

variable {m : GridMap} {start goal : Point}

-----------------------------------------------------------------------------------------
-- Routes
-----------------------------------------------------------------------------------------

theorem mayConnect_eq (inside : m.extent.contains start = true)
    (target : m.extent.contains goal = true)
    : mayConnect m start goal = some (m.mayConnect start goal) := by
  rw [mayConnect, GridMap.mayConnect]
  cases m.components with
  | none => rfl
  | some c =>
      simp only [read_eq c.labels inside 0, read_eq c.labels target 0, Option.bind_eq_bind,
        Option.bind_some]
      rfl

/-- Between walkable cells the route is found, and so is that there is none. -/
theorem exists_route (fits : m.extent.CostsFit) (free : m.walkable start = true)
    (target : m.walkable goal = true)
    : ∃ answer,
        route m start goal = some (.ok answer)
        ∧ m.route start goal = .ok answer
        ∧ ∀ cells ∈ answer, cells.length < 18446744073709551614 := by
  have inside : m.extent.contains start = true := Terrain.contains_of_walkable free
  have insideGoal : m.extent.contains goal = true := Terrain.contains_of_walkable target
  rw [route, GridMap.route, mayConnect_eq inside insideGoal]
  by_cases same : start = goal
  · rw [if_pos same, if_pos same]
    exact ⟨some [start], rfl, rfl, by simp⟩
  · rw [if_neg same, if_neg same]
    cases rejected : m.settings.connectivityReject && !m.mayConnect start goal with
    | true =>
        simp only [Option.bind_eq_bind, Option.bind_some, rejected, if_true]
        exact ⟨none, rfl, rfl, by simp⟩
    | false =>
        obtain ⟨outcome, searched, agrees⟩ := search_agrees (t := m.terrain) fits free insideGoal
        simp only [Option.bind_eq_bind, Option.bind_some, rejected, Bool.false_eq_true, if_false,
          searched]
        generalize m.terrain.search start goal = other at agrees
        cases agrees with
        | exhausted => exact ⟨none, rfl, rfl, by simp⟩
        | @reached c s node done follows cell ledger =>
            subst cell
            refine ⟨some (s.path node.cell), ?_, rfl, ?_⟩
            · simp only [path_eq follows ledger]
              rfl
            · simpa using length_path_lt s node.cell

-----------------------------------------------------------------------------------------
-- Queries
-----------------------------------------------------------------------------------------

theorem checkEnds_eq (m : GridMap) (start goal : Point)
    : checkEnds m start goal = some (m.checkEnds start goal) := by
  rw [checkEnds, GridMap.checkEnds, place_eq, place_eq, Extent.index?, Extent.index?,
    GridMap.checkInside, GridMap.checkInside]
  cases m.extent.contains start with
  | false => rfl
  | true =>
      cases m.extent.contains goal with
      | false => rfl
      | true =>
          have same : ({ m with start := some start, goal := some goal } : GridMap).terrain
              = m.terrain := rfl
          simp only [if_true, Option.bind_eq_bind, Option.bind_some, walkable_eq, GridMap.walkable,
            same]
          cases m.terrain.walkable start <;> cases m.terrain.walkable goal <;> rfl

/-- A query in machine words gives the answer of the map and leaves the map in the same state. -/
theorem queryCells_eq (fits : m.extent.CostsFit) (smoothing : Bool) (start goal : Point)
    : queryCells m smoothing start goal = some (m.queryCells smoothing start goal) := by
  rw [queryCells, GridMap.queryCells, checkEnds_eq, Option.bind_eq_bind, Option.bind_some]
  rcases checked : m.checkEnds start goal with ⟨outcome, after⟩
  cases outcome with
  | error => rfl
  | ok =>
      obtain ⟨free, target⟩ := GridMap.walkable_of_checkEnds checked
      rw [GridMap.checkEnds_of_walkable free target] at checked
      cases checked
      obtain ⟨answer, found, same, short⟩ :=
        exists_route (m := { m with start := some start, goal := some goal }) fits free target
      simp only [found, same]
      cases answer with
      | none => rfl
      | some cells =>
          cases smoothing with
          | false => rfl
          | true =>
              simp only [if_true, smooth_eq (short cells rfl), Option.bind_eq_bind,
                Option.bind_some]
              rfl

end Checked

-----------------------------------------------------------------------------------------
-- Answers
-----------------------------------------------------------------------------------------

namespace GridMap

variable {m : GridMap} {start goal : Point}

/-- The answer is no fault of the open set and no overflow, and the cost of a path in it fits. -/
structure Answer.Regular (answer : Answer (List Point)) : Prop where
  heap : ∀ reason, answer ≠ .error (.heap reason)
  overflow : answer ≠ .error .overflow
  cost : ∀ path, answer = .ok (some path) → ∃ c, pathCost? path = some c

/-- A query that is refused has an end outside or on an obstacle. -/
theorem checkEnds_error {reason : MapFault} {after : GridMap}
    (refused : m.checkEnds start goal = (.error reason, after))
    : reason = .outOfBounds start
      ∨ reason = .outOfBounds goal
      ∨ reason = .blockedStart start
      ∨ reason = .blockedEnd goal := by
  rw [checkEnds, checkInside, checkInside] at refused
  cases inside : m.extent.contains start with
  | false =>
      simp only [inside, Bool.false_eq_true, if_false] at refused
      cases refused
      exact Or.inl rfl
  | true =>
      cases target : m.extent.contains goal with
      | false =>
          simp only [inside, target, Bool.false_eq_true, if_false, if_true] at refused
          cases refused
          exact Or.inr (Or.inl rfl)
      | true =>
          simp only [inside, target, if_true] at refused
          split at refused
          · cases refused
            exact Or.inr (Or.inr (Or.inl rfl))
          · split at refused
            · cases refused
              exact Or.inr (Or.inr (Or.inr rfl))
            · cases refused

theorem regular_of_error {reason : MapFault} {after : GridMap}
    (refused : m.checkEnds start goal = (.error reason, after))
    : Answer.Regular (.error reason) := by
  rcases checkEnds_error refused with rfl | rfl | rfl | rfl <;> constructor <;> simp

/-- A path that costs little enough is a regular answer. -/
theorem regular_of_pathCost_le {path : List Point} (fits : pathCost path ≤ 2147483647)
    : Answer.Regular (.ok (some path)) := by
  refine ⟨by simp, by simp, fun other same => ?_⟩
  cases same
  have nonneg := pathCost_nonneg path
  exact ⟨_, int32?_of_fits ⟨by omega, fits⟩⟩

/-- Every query is answered regularly as long as the costs fit. -/
theorem queryCells_regular (fits : m.extent.CostsFit) (smoothing : Bool) (start goal : Point)
    : (m.queryCells smoothing start goal).1.Regular := by
  rw [queryCells]
  rcases checked : m.checkEnds start goal with ⟨outcome, after⟩
  cases outcome with
  | error reason => exact regular_of_error checked
  | ok =>
      obtain ⟨free, target⟩ := walkable_of_checkEnds checked
      rw [checkEnds_of_walkable free target] at checked
      cases checked
      have same := m.route_record (some start, some goal) start goal
      obtain ⟨answer, _, found, _⟩ := Checked.exists_route fits free target
      simp only [same, found]
      cases answer with
      | none => exact ⟨by simp, by simp, by simp⟩
      | some cells =>
          obtain ⟨c, trail, _, small, _⟩ := trail_of_route fits free target found
          rw [← trail.pathCost_eq] at small
          cases smoothing with
          | false => exact regular_of_pathCost_le small
          | true => exact regular_of_pathCost_le ((pathCost_shorten_le _ cells).trans small)

end GridMap

end Wayfinding
