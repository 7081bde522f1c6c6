import Wayfinding.Proofs.Search.Runs

/-! Why a search may leave directions out. A step that is neither natural nor forced after a step
in direction `d` is no loss: its cell can be reached more cheaply from the cell before, or the two
steps can be taken in the other order.
-/

namespace Wayfinding

theorem Point.add_assoc (p q r : Point) : p + q + r = p + (q + r) := by
  apply Point.ext <;> simp [Int.add_assoc]

theorem Point.add_comm (p q : Point) : p + q = q + p := by
  apply Point.ext <;> simp [Int.add_comm]

@[simp] theorem Point.add_zero (p : Point) : p + Point.zero = p := by
  apply Point.ext <;> simp [Point.zero]

namespace Direction

/-- Every direction is some turn away from any other. -/
theorem exists_turn (d g : Direction)
    : g = d ∨ g = d.turn 1 ∨ g = d.turn 2 ∨ g = d.turn 3 ∨ g = d.turn 4 ∨ g = d.turn 5
      ∨ g = d.turn 6 ∨ g = d.turn 7 := by
  cases d <;> cases g <;> decide

/-- A step and the step back lead nowhere. -/
theorem delta_back (d : Direction) : d.delta + (d.turn 4).delta = Point.zero := by
  cases d <;> decide

/-- A step along an axis and one across are a diagonal step. -/
theorem axis_across {d : Direction} (axis : d.diagonal = false)
    : d.delta + (d.turn 2).delta = (d.turn 1).delta
      ∧ d.delta + (d.turn 6).delta = (d.turn 7).delta := by
  revert axis
  cases d <;> decide

theorem axis_back {d : Direction} (axis : d.diagonal = false)
    : d.delta + (d.turn 3).delta = (d.turn 2).delta
      ∧ d.delta + (d.turn 5).delta = (d.turn 6).delta := by
  revert axis
  cases d <;> decide

/-- Two diagonal steps across each other are two steps along the axis between them. -/
theorem diagonal_across {d : Direction} (diagonal : d.diagonal = true)
    : d.delta + (d.turn 2).delta = (d.turn 1).delta + (d.turn 1).delta
      ∧ d.delta + (d.turn 6).delta = (d.turn 7).delta + (d.turn 7).delta := by
  revert diagonal
  cases d <;> decide

theorem diagonal_back {d : Direction} (diagonal : d.diagonal = true)
    : d.delta + (d.turn 3).delta = (d.turn 1).delta
      ∧ d.delta + (d.turn 5).delta = (d.turn 7).delta := by
  revert diagonal
  cases d <;> decide

/-- Odd turns away from an axis are diagonals and even ones are not. -/
theorem axis_costs {d : Direction} (axis : d.diagonal = false)
    : d.cost = 5
      ∧ ((d.turn 1).cost = 7 ∧ (d.turn 2).cost = 5 ∧ (d.turn 3).cost = 7)
      ∧ ((d.turn 5).cost = 7 ∧ (d.turn 6).cost = 5 ∧ (d.turn 7).cost = 7) := by
  revert axis
  cases d <;> decide

/-- Odd turns away from a diagonal are axes and even ones are not. -/
theorem diagonal_costs {d : Direction} (diagonal : d.diagonal = true)
    : d.cost = 7
      ∧ ((d.turn 1).cost = 5 ∧ (d.turn 2).cost = 7 ∧ (d.turn 3).cost = 5)
      ∧ ((d.turn 5).cost = 5 ∧ (d.turn 6).cost = 7 ∧ (d.turn 7).cost = 5) := by
  revert diagonal
  cases d <;> decide

theorem diagonal_turn_axis {d : Direction} (axis : d.diagonal = false)
    : (d.turn 1).diagonal = true ∧ (d.turn 7).diagonal = true := by
  revert axis
  cases d <;> decide

end Direction

namespace Terrain

variable {t : Terrain} {p : Point} {d g : Direction}

theorem openAt_eq (t : Terrain) (p : Point) (d : Direction) (k : Nat)
    : t.openAt p d k = t.walkable (p + (d.turn k).delta) := by
  unfold openAt step?
  split <;> simp_all

/-- A turn is forced if it leads to a walkable cell past one that is not. -/
theorem addForced_contains {out side : Nat} {set : DirectionSet}
    : (t.addForced p d out side set).contains g = true
      ↔ set.contains g = true
        ∨ g = d.turn out
          ∧ t.walkable (p + (d.turn out).delta) = true
          ∧ t.walkable (p + (d.turn side).delta) = false := by
  rw [addForced]
  simp only [openAt_eq]
  split <;> simp_all

/-- After a run along an axis the diagonals ahead are forced past obstacles at the sides. -/
theorem forced_contains_axis (axis : d.diagonal = false)
    : (t.forced p d).contains g = true
      ↔ (g = d.turn 1 ∧ t.walkable (p + (d.turn 1).delta) = true
          ∧ t.walkable (p + (d.turn 2).delta) = false)
        ∨ (g = d.turn 7 ∧ t.walkable (p + (d.turn 7).delta) = true
          ∧ t.walkable (p + (d.turn 6).delta) = false) := by
  simp [forced, axis, addForced_contains]

/-- After a diagonal run the diagonals across are forced past obstacles behind them. -/
theorem forced_contains_diagonal (diagonal : d.diagonal = true)
    : (t.forced p d).contains g = true
      ↔ (g = d.turn 6 ∧ t.walkable (p + (d.turn 6).delta) = true
          ∧ t.walkable (p + (d.turn 5).delta) = false)
        ∨ (g = d.turn 2 ∧ t.walkable (p + (d.turn 2).delta) = true
          ∧ t.walkable (p + (d.turn 3).delta) = false) := by
  simp [forced, diagonal, addForced_contains]

/-- A search goes on in the natural and in the forced directions. -/
theorem mem_directions
    : g ∈ t.directions p (some d)
      ↔ (naturalDirections (some d)).contains g = true ∨ (t.forced p d).contains g = true := by
  simp [directions]

/-- Without a run that led here a search goes on in all directions. -/
theorem mem_directions_none (t : Terrain) (p : Point) (g : Direction)
    : g ∈ t.directions p none := by
  simp [directions, naturalDirections]

/-- Where no stop is due, no turn is forced. -/
theorem directions_of_not_stopsAt {goal : Point} (on : t.stopsAt goal d p = false)
    : g ∈ t.directions p (some d) ↔ (naturalDirections (some d)).contains g = true := by
  have unforced : (t.forced p d).isEmpty = true := by
    simp only [stopsAt, Bool.or_eq_false_iff, Bool.not_eq_false'] at on
    exact on.2
  have nothing : (t.forced p d).contains g = false := by
    simp only [DirectionSet.isEmpty, beq_iff_eq] at unforced
    simp [DirectionSet.contains, unforced]
  simp [mem_directions, nothing]

/-- Two steps can be saved: a cheaper walk leads from `p` to where they lead. -/
def Shortcut (t : Terrain) (p : Point) (d g : Direction) : Prop :=
  ∃ c < d.cost + g.cost, t.Walk p (p + d.delta + g.delta) c

/-- A single step is a shortcut if it is cheaper. -/
private theorem shortcut_of_step (free : t.walkable p = true)
    (target : t.walkable (p + d.delta + g.delta) = true) (f : Direction)
    (same : d.delta + g.delta = f.delta) (cheaper : f.cost < d.cost + g.cost)
    : t.Shortcut p d g := by
  refine ⟨f.cost, cheaper, ?_⟩
  rw [Point.add_assoc, same] at target ⊢
  simpa using Walk.step (.here free) f target

/-- Two steps along an axis are a shortcut for two diagonal steps. -/
private theorem shortcut_of_axis (free : t.walkable p = true)
    (target : t.walkable (p + d.delta + g.delta) = true) (f : Direction)
    (side : t.walkable (p + f.delta) = true)
    (same : d.delta + g.delta = f.delta + f.delta) (cheaper : f.cost + f.cost < d.cost + g.cost)
    : t.Shortcut p d g := by
  refine ⟨f.cost + f.cost, cheaper, ?_⟩
  rw [Point.add_assoc, same, ← Point.add_assoc] at target ⊢
  simpa using (Walk.step (.here free) f side).step f target

private theorem shortcut_back (free : t.walkable p = true) : t.Shortcut p d (d.turn 4) := by
  refine ⟨0, Int.add_pos d.cost_pos (d.turn 4).cost_pos, ?_⟩
  rw [Point.add_assoc, Direction.delta_back, Point.add_zero]
  exact .here free

/-- After a step along an axis, a direction that is left out is a shortcut or a diagonal whose
side is open.
-/
private theorem axis_detour (axis : d.diagonal = false) (free : t.walkable p = true)
    (target : t.walkable (p + d.delta + g.delta) = true)
    (pruned : g ∉ t.directions (p + d.delta) (some d))
    : t.Shortcut p d g ∨ g.diagonal = true ∧ t.walkable (p + g.delta) = true := by
  simp only [mem_directions, naturalDirections_contains, forced_contains_axis axis, axis,
    Bool.false_eq_true, false_and, or_false, not_or, not_and, Bool.not_eq_false] at pruned
  obtain ⟨other, right, left⟩ := pruned
  obtain ⟨across2, across6⟩ := Direction.axis_across axis
  obtain ⟨back3, back5⟩ := Direction.axis_back axis
  obtain ⟨diagonal1, diagonal7⟩ := Direction.diagonal_turn_axis axis
  have costs := Direction.axis_costs axis
  rcases d.exists_turn g with rfl | rfl | rfl | rfl | rfl | rfl | rfl | rfl
  · exact absurd rfl other
  · have side := right rfl target
    rw [Point.add_assoc, across2] at side
    exact Or.inr ⟨diagonal1, side⟩
  · exact Or.inl (shortcut_of_step free target _ across2 (by omega))
  · exact Or.inl (shortcut_of_step free target _ back3 (by omega))
  · exact Or.inl (shortcut_back free)
  · exact Or.inl (shortcut_of_step free target _ back5 (by omega))
  · exact Or.inl (shortcut_of_step free target _ across6 (by omega))
  · have side := left rfl target
    rw [Point.add_assoc, across6] at side
    exact Or.inr ⟨diagonal7, side⟩

/-- After a diagonal step, a direction that is left out is a shortcut. -/
private theorem diagonal_detour (diagonal : d.diagonal = true) (free : t.walkable p = true)
    (target : t.walkable (p + d.delta + g.delta) = true)
    (pruned : g ∉ t.directions (p + d.delta) (some d))
    : t.Shortcut p d g := by
  simp only [mem_directions, naturalDirections_contains, forced_contains_diagonal diagonal,
    diagonal, true_and, not_or, not_and, Bool.not_eq_false] at pruned
  obtain ⟨⟨other, other7, other1⟩, left, right⟩ := pruned
  obtain ⟨across2, across6⟩ := Direction.diagonal_across diagonal
  obtain ⟨back3, back5⟩ := Direction.diagonal_back diagonal
  have costs := Direction.diagonal_costs diagonal
  rcases d.exists_turn g with rfl | rfl | rfl | rfl | rfl | rfl | rfl | rfl
  · exact absurd rfl other
  · exact absurd rfl other1
  · have side := right rfl target
    rw [Point.add_assoc, back3] at side
    exact shortcut_of_axis free target _ side across2 (by omega)
  · exact shortcut_of_step free target _ back3 (by omega)
  · exact shortcut_back free
  · exact shortcut_of_step free target _ back5 (by omega)
  · have side := left rfl target
    rw [Point.add_assoc, back5] at side
    exact shortcut_of_axis free target _ side across6 (by omega)
  · exact absurd rfl other7

/-- A step that is left out after a step from `p` can be saved, or it is a diagonal one after one
along an axis and can be taken first.
-/
theorem shortcut_or_swap (free : t.walkable p = true)
    (target : t.walkable (p + d.delta + g.delta) = true)
    (pruned : g ∉ t.directions (p + d.delta) (some d))
    : t.Shortcut p d g
      ∨ d.diagonal = false ∧ g.diagonal = true ∧ t.walkable (p + g.delta) = true := by
  cases diagonal : d.diagonal with
  | true => exact Or.inl (diagonal_detour diagonal free target pruned)
  | false =>
      rcases axis_detour diagonal free target pruned with shortcut | swap
      · exact Or.inl shortcut
      · exact Or.inr ⟨rfl, swap⟩

end Terrain

end Wayfinding
