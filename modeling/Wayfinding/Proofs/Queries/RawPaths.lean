import Wayfinding.GridMap.Query
import Wayfinding.Proofs.Search.Rounds
import Wayfinding.Proofs.Search.Trails

/-! What the answers of path queries between cells are worth before any smoothing: a path is sound
and as cheap as any walk, and there is one whenever there is a walk.
-/

namespace Wayfinding.GridMap

variable {m : GridMap} {start goal : Point} {path : List Point}

/-- Recording the ends of a query does not change its route. -/
theorem route_record (m : GridMap) (ends : Option Point × Option Point) (start goal : Point)
    : ({ m with start := ends.1, goal := ends.2 } : GridMap).route start goal
      = m.route start goal := by
  have mayConnect : ({ m with start := ends.1, goal := ends.2 } : GridMap).mayConnect start goal
      = m.mayConnect start goal := by
    unfold GridMap.mayConnect
    cases m.components <;> rfl
  have search : ({ m with start := ends.1, goal := ends.2 } : GridMap).terrain.search start goal
      = m.terrain.search start goal := rfl
  unfold route
  rw [mayConnect, search]
  cases m.terrain.search start goal with
  | error => rfl
  | ok outcome => cases outcome <;> rfl

/-- The ends of a query are accepted and recorded if both are walkable. -/
theorem checkEnds_of_walkable (freeStart : m.walkable start = true)
    (freeGoal : m.walkable goal = true)
    : m.checkEnds start goal = (.ok (), { m with start := some start, goal := some goal }) := by
  have insideStart : m.extent.contains start = true := Terrain.contains_of_walkable freeStart
  have insideGoal : m.extent.contains goal = true := Terrain.contains_of_walkable freeGoal
  have walkable : ∀ p, ({ m with start := some start, goal := some goal } : GridMap).walkable p
      = m.walkable p := fun _ => rfl
  simp [checkEnds, checkInside, insideStart, insideGoal, walkable, freeStart, freeGoal]

/-- The ends of a query are only accepted if both are walkable. -/
theorem walkable_of_checkEnds {after : GridMap} (h : m.checkEnds start goal = (.ok (), after))
    : m.walkable start = true ∧ m.walkable goal = true := by
  have walkable : ∀ p, ({ m with start := some start, goal := some goal } : GridMap).walkable p
      = m.walkable p := fun _ => rfl
  rw [checkEnds] at h
  split at h
  · cases h
  · cases h
  · simp only [walkable] at h
    cases freeStart : m.walkable start <;> cases freeGoal : m.walkable goal <;>
      simp [freeStart, freeGoal] at h ⊢

/-- A query between walkable cells is answered by its route. -/
theorem findRawCells_of_walkable (freeStart : m.walkable start = true)
    (freeGoal : m.walkable goal = true)
    : (m.findRawCells start goal).1 = m.route start goal := by
  have route := m.route_record (some start, some goal) start goal
  simp only [findRawCells, queryCells, checkEnds_of_walkable freeStart freeGoal, route]
  cases m.route start goal with
  | error => rfl
  | ok answer => cases answer <;> rfl

/-- A query that is answered has walkable ends. -/
theorem walkable_of_findRawCells {answer : Option (List Point)}
    (h : (m.findRawCells start goal).1 = .ok answer)
    : m.walkable start = true ∧ m.walkable goal = true := by
  unfold findRawCells queryCells at h
  cases checked : m.checkEnds start goal with
  | mk outcome after =>
      cases outcome with
      | error => simp [checked] at h
      | ok => exact walkable_of_checkEnds checked

/-- A route is a trail at the least cost, which fits: that of the start itself, or that with which
the goal came out of the open set of the search.
-/
theorem trail_of_route (fits : m.extent.CostsFit) (freeStart : m.walkable start = true)
    (freeGoal : m.walkable goal = true) (found : m.route start goal = .ok (some path))
    : ∃ c,
        m.terrain.Trail start path goal c
        ∧ m.terrain.Cheapest start goal c
        ∧ c ≤ 2147483647
        ∧ (start = goal → c = 0)
        ∧ (start ≠ goal → m.terrain.PopsGoal start goal c) := by
  rw [route] at found
  by_cases same : start = goal
  · subst same
    rw [if_pos rfl] at found
    cases found
    refine ⟨0, .start freeStart, ⟨.here freeStart, ?_⟩, by decide, fun _ => rfl, ?_⟩
    · exact fun cost walk => Terrain.Walk.cost_nonneg walk
    · exact fun differ => absurd rfl differ
  · rw [if_neg same] at found
    split at found
    · cases found
    · have target : m.terrain.extent.contains goal = true := Terrain.contains_of_walkable freeGoal
      have ends := Terrain.search_ends fits freeStart target
      generalize result : m.terrain.search start goal = outcome at ends found
      cases ends with
      | nowhere => cases found
      | @found s x heap done popped cell cheapest ledger =>
          subst cell
          cases found
          obtain ⟨sound, _⟩ := ledger.recorded.head
          have room := Nat.le_trans (Nat.le_succ done.length) ledger.length_le
          refine ⟨x.value.cost, ledger.trail, cheapest, ?_, fun equal => absurd equal same, ?_⟩
          · exact Int.le_trans sound.cost_le (Extent.CostsFit.budget_le fits room)
          · exact fun _ => ⟨s, x, heap, popped, rfl, rfl, result⟩

private theorem pathCost?_of_trail {t : Terrain} {c : Int} (trail : t.Trail start path goal c)
    (fits : c ≤ 2147483647)
    : pathCost? path = some c := by
  have nonneg := pathCost_nonneg path
  rw [trail.pathCost_eq] at nonneg
  rw [pathCost?, trail.pathCost_eq, int32?_of_fits (by unfold InInt32; omega)]

/-- A map whose only way out of the first column leads between two obstacles that touch at a corner.
Its parts are marked as if no two cells were connected, and queries do not ask for them.
-/
def squeeze : GridMap where
  extent := ⟨⟨4, 3⟩, by decide, by decide, by decide, by decide⟩
  blocked := (((Layer.fill _ false).set ⟨1, 0⟩ true).set ⟨1, 1⟩ true).set ⟨0, 2⟩ true
  settings := { connectivityReject := false }
  components := some ⟨0, .fill _ 0⟩
  start := none
  goal := none
  latestPath := []

/-- The cost of a path is the least of all walks from the start to the goal. -/
theorem findRawCells_cheapest (fits : m.extent.CostsFit)
    (found : (m.findRawCells start goal).1 = .ok (some path))
    : ∃ cost, pathCost? path = some cost ∧ m.terrain.Cheapest start goal cost := by
  obtain ⟨freeStart, freeGoal⟩ := walkable_of_findRawCells found
  rw [findRawCells_of_walkable freeStart freeGoal] at found
  obtain ⟨c, trail, cheapest, small, _⟩ := trail_of_route fits freeStart freeGoal found
  exact ⟨c, pathCost?_of_trail trail small, cheapest⟩

theorem findRawCells_cheapest_squeeze
    : squeeze.extent.CostsFit
      ∧ (squeeze.findRawCells ⟨0, 0⟩ ⟨3, 0⟩).1 = .ok (some [⟨0, 0⟩, ⟨0, 1⟩, ⟨1, 2⟩, ⟨3, 0⟩])
      ∧ ∃ cost,
          pathCost? [⟨0, 0⟩, ⟨0, 1⟩, ⟨1, 2⟩, ⟨3, 0⟩] = some cost
          ∧ squeeze.terrain.Cheapest ⟨0, 0⟩ ⟨3, 0⟩ cost := by
  have fits : squeeze.extent.CostsFit := by decide
  have found : (squeeze.findRawCells ⟨0, 0⟩ ⟨3, 0⟩).1
      = .ok (some [⟨0, 0⟩, ⟨0, 1⟩, ⟨1, 2⟩, ⟨3, 0⟩]) := by decide +kernel
  exact ⟨fits, found, findRawCells_cheapest fits found⟩

/-- Unless the marked parts may speak against a way, there is a path between walkable cells if there
is a walk, and an answer without a path if there is none.
-/
theorem findRawCells_iff_walk (fits : m.extent.CostsFit)
    (unrejected : m.components = none ∨ m.settings.connectivityReject = false)
    (freeStart : m.walkable start = true) (freeGoal : m.walkable goal = true)
    : ((∃ path, (m.findRawCells start goal).1 = .ok (some path))
        ↔ ∃ c, m.terrain.Walk start goal c)
      ∧ ((m.findRawCells start goal).1 = .ok none ↔ ¬ ∃ c, m.terrain.Walk start goal c) := by
  rw [findRawCells_of_walkable freeStart freeGoal, route]
  by_cases same : start = goal
  · subst same
    have walk : ∃ c, m.terrain.Walk start start c := ⟨0, .here freeStart⟩
    simp [walk]
  · have allowed : (m.settings.connectivityReject && !m.mayConnect start goal) = false := by
      rcases unrejected with unmarked | off
      · simp [mayConnect, unmarked]
      · simp [off]
    have target : m.terrain.extent.contains goal = true := Terrain.contains_of_walkable freeGoal
    have ends := Terrain.search_ends fits freeStart target
    generalize m.terrain.search start goal = outcome at ends
    cases ends with
    | nowhere none => simp [same, allowed, none]
    | @found _ x _ _ _ _ cheapest _ =>
        have walk : ∃ c, m.terrain.Walk start goal c := ⟨x.value.cost, cheapest.1⟩
        simp [same, allowed, walk]

/-- A path leads from the start to the goal over walkable cells alone, leg by leg, and its cost is
that with which the goal came out of the open set.
-/
theorem findRawCells_sound (fits : m.extent.CostsFit)
    (found : (m.findRawCells start goal).1 = .ok (some path))
    : path.head? = some start
      ∧ path.getLast? = some goal
      ∧ (∀ p ∈ path, m.walkable p = true)
      ∧ path.IsChain m.terrain.Leg
      ∧ (start = goal → pathCost? path = some 0)
      ∧ (start ≠ goal → ∃ c, m.terrain.PopsGoal start goal c ∧ pathCost? path = some c) := by
  obtain ⟨freeStart, freeGoal⟩ := walkable_of_findRawCells found
  rw [findRawCells_of_walkable freeStart freeGoal] at found
  obtain ⟨c, trail, _, small, stay, go⟩ := trail_of_route fits freeStart freeGoal found
  have cost := pathCost?_of_trail trail small
  refine ⟨trail.head?, trail.getLast?, trail.walkable, trail.isChain, ?_, ?_⟩
  · exact fun same => stay same ▸ cost
  · exact fun differ => ⟨c, go differ, cost⟩

theorem findRawCells_sound_squeeze
    : squeeze.extent.CostsFit
      ∧ (squeeze.findRawCells ⟨0, 0⟩ ⟨3, 0⟩).1 = .ok (some [⟨0, 0⟩, ⟨0, 1⟩, ⟨1, 2⟩, ⟨3, 0⟩])
      ∧ [⟨0, 0⟩, ⟨0, 1⟩, ⟨1, 2⟩, ⟨3, 0⟩].IsChain squeeze.terrain.Leg := by
  have fits : squeeze.extent.CostsFit := by decide
  have found : (squeeze.findRawCells ⟨0, 0⟩ ⟨3, 0⟩).1
      = .ok (some [⟨0, 0⟩, ⟨0, 1⟩, ⟨1, 2⟩, ⟨3, 0⟩]) := by decide +kernel
  obtain ⟨_, _, _, legs, _⟩ := findRawCells_sound fits found
  exact ⟨fits, found, legs⟩

end Wayfinding.GridMap
