import Wayfinding.GridMap.Query

/-! What a query can change: the ends that were asked for last and the cells of the latest path. All
else stays, and the answer depends on nothing that earlier queries have left behind.
-/

namespace Wayfinding.GridMap

variable {m after : GridMap} {start goal : Point}

/-- The maps are the same but for what queries leave behind. -/
def Undisturbed (m after : GridMap) : Prop :=
  ∃ start goal path, after = { m with start := start, goal := goal, latestPath := path }

theorem Undisturbed.refl (m : GridMap) : m.Undisturbed m :=
  ⟨m.start, m.goal, m.latestPath, rfl⟩

theorem Undisturbed.trans {last : GridMap} (first : m.Undisturbed after)
    (second : after.Undisturbed last)
    : m.Undisturbed last := by
  obtain ⟨_, _, _, rfl⟩ := first
  obtain ⟨start, goal, path, rfl⟩ := second
  exact ⟨start, goal, path, rfl⟩

theorem Undisturbed.symm (alike : m.Undisturbed after) : after.Undisturbed m := by
  obtain ⟨_, _, _, rfl⟩ := alike
  exact ⟨m.start, m.goal, m.latestPath, rfl⟩

/-- Whether the ends of a query are refused does not depend on earlier ones. -/
theorem Undisturbed.checkEnds_fst (alike : m.Undisturbed after) (start goal : Point)
    : (m.checkEnds start goal).1 = (after.checkEnds start goal).1 := by
  obtain ⟨first, last, path, rfl⟩ := alike
  have inside : ∀ p,
      ({ m with start := first, goal := last, latestPath := path } : GridMap).checkInside p
        = m.checkInside p := fun _ => rfl
  have walkable : ∀ first last path p,
      ({ m with start := first, goal := last, latestPath := path } : GridMap).walkable p
        = m.walkable p := fun _ _ _ _ => rfl
  simp only [checkEnds, inside]
  cases m.checkInside start with
  | error => rfl
  | ok =>
      cases m.checkInside goal with
      | error => rfl
      | ok =>
          simp only [walkable]
          cases m.walkable start <;> cases m.walkable goal <;> rfl

theorem Undisturbed.way_eq (alike : m.Undisturbed after) (cells : List Point)
    (first last : Position)
    : m.terrain.way m.settings.cornerOffset cells first last
      = after.terrain.way after.settings.cornerOffset cells first last := by
  obtain ⟨_, _, _, rfl⟩ := alike
  rfl

/-- Checking the ends of a query records them or changes nothing. -/
theorem exists_checkEnds (m : GridMap) (start goal : Point)
    : ∃ first last, (m.checkEnds start goal).2 = { m with start := first, goal := last } := by
  rw [checkEnds]
  cases m.checkInside start with
  | error => exact ⟨m.start, m.goal, rfl⟩
  | ok =>
      cases m.checkInside goal with
      | error => exact ⟨m.start, m.goal, rfl⟩
      | ok =>
          refine ⟨some start, some goal, ?_⟩
          dsimp only
          split
          · rfl
          · split <;> rfl

theorem undisturbed_checkEnds (m : GridMap) (start goal : Point)
    : m.Undisturbed (m.checkEnds start goal).2 := by
  obtain ⟨first, last, ended⟩ := m.exists_checkEnds start goal
  exact ⟨first, last, m.latestPath, ended⟩

/-- A query with an end outside leaves the map alone. -/
theorem checkEnds_outside {p : Point}
    (refused : m.checkEnds start goal = (.error (.outOfBounds p), after))
    : after = m := by
  rw [checkEnds] at refused
  split at refused
  · cases refused
    rfl
  · cases refused
    rfl
  · dsimp only at refused
    split at refused
    · cases refused
    · split at refused <;> cases refused

theorem locate_of_contains {a : Position} (finite : a.finite = true)
    (inside : m.extent.contains a.cell = true)
    : m.locate a = .ok a.cell := by
  rw [locate, finite, inside]
  rfl

theorem eq_cell_of_locate {a : Position} {p : Point} (located : m.locate a = .ok p) : p = a.cell := by
  rw [locate] at located
  split at located <;> cases located
  rfl

theorem eq_outOfBounds_of_locate {a : Position} {reason : MapFault}
    (refused : m.locate a = .error reason)
    : reason = .outOfBounds a.cell := by
  rw [locate] at refused
  split at refused <;> cases refused
  rfl

theorem undisturbed_queryCells (m : GridMap) (smooth : Bool) (start goal : Point)
    : m.Undisturbed (m.queryCells smooth start goal).2 := by
  have checked := m.undisturbed_checkEnds start goal
  rw [queryCells]
  generalize m.checkEnds start goal = outcome at checked
  obtain ⟨_ | _, after⟩ := outcome
  · exact checked
  · dsimp only at checked ⊢
    generalize after.route start goal = answer
    obtain _ | _ | cells := answer
    · exact checked
    · exact checked.trans ⟨after.start, after.goal, [], rfl⟩
    · exact checked.trans ⟨after.start, after.goal, _, rfl⟩

theorem undisturbed_findWay (m : GridMap) (start goal : Position)
    : m.Undisturbed (m.findWay start goal).2 := by
  rw [findWay]
  rcases m.locate start with _ | p
  · exact .refl m
  · rcases m.locate goal with _ | q
    · exact .refl m
    · dsimp only
      split
      · exact .refl m
      · have queried := m.undisturbed_queryCells true p q
        generalize m.queryCells true p q = outcome at queried
        obtain ⟨_ | _ | cells, after⟩ := outcome
        · exact queried
        · exact queried
        · dsimp only at queried ⊢
          generalize after.terrain.way after.settings.cornerOffset cells start goal = way
          obtain _ | _ := way
          · exact queried.trans ⟨after.start, after.goal, m.latestPath, rfl⟩
          · exact queried

end Wayfinding.GridMap
