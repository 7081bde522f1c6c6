import Wayfinding.Proofs.Checked.Jumps
import Wayfinding.Proofs.Search.Trails
import Wayfinding.Proofs.Shortening

/-! Walks on free ground. A diagonal run and a straight one beside it lead from any cell to any
other at the octile cost, and no walk is cheaper: the octile cost is the distance between two cells
where nothing stands in the way, and an estimate that never falls by more than a walk costs.
-/

namespace Wayfinding

/-- A walk on free ground leads from one cell to another by single steps in any direction. -/
inductive FreeWalk (start : Point) : Point → Int → Prop
  | here : FreeWalk start start 0
  | step {p : Point} {c : Int} (before : FreeWalk start p c) (d : Direction)
    : FreeWalk start (p + d.delta) (c + d.cost)

-----------------------------------------------------------------------------------------
-- A walk at the octile cost
-----------------------------------------------------------------------------------------

/-- A walk may go on in one direction for any number of steps, by induction over them. -/
theorem FreeWalk.run {start p : Point} {c : Int} (walk : FreeWalk start p c) (d : Direction)
    (steps : Nat)
    : FreeWalk start (p.along d steps) (c + steps * d.cost) := by
  induction steps with
  | zero => simpa using walk
  | succ steps ih =>
      have cost : c + (steps + 1 : Nat) * d.cost = c + steps * d.cost + d.cost := by
        simp only [Int.natCast_succ, Int.add_mul, Int.one_mul, Int.add_assoc]
      simpa only [Point.along_succ, cost] using ih.step d

/-- Some diagonal direction leads towards a cell on both axes. -/
theorem Direction.exists_towards (offset : Point)
    : ∃ d : Direction,
        d.diagonal = true
        ∧ d.delta.x * offset.x.natAbs = offset.x
        ∧ d.delta.y * offset.y.natAbs = offset.y := by
  rcases Int.le_total 0 offset.x with east | west
  · rcases Int.le_total 0 offset.y with south | north
    · exact ⟨.se, rfl, by simp only [delta]; omega, by simp only [delta]; omega⟩
    · exact ⟨.ne, rfl, by simp only [delta]; omega, by simp only [delta]; omega⟩
  · rcases Int.le_total 0 offset.y with south | north
    · exact ⟨.sw, rfl, by simp only [delta]; omega, by simp only [delta]; omega⟩
    · exact ⟨.nw, rfl, by simp only [delta]; omega, by simp only [delta]; omega⟩

/-- On either side of a diagonal direction lies one of its two axes. -/
theorem Direction.exists_beside {d : Direction} (diagonal : d.diagonal = true)
    : (∃ f, (f = d.turn 7 ∨ f = d.turn 1) ∧ f.delta = ⟨d.delta.x, 0⟩)
      ∧ ∃ f, (f = d.turn 7 ∨ f = d.turn 1) ∧ f.delta = ⟨0, d.delta.y⟩ := by
  cases d with
  | ne => exact ⟨⟨.e, .inr rfl, rfl⟩, .n, .inl rfl, rfl⟩
  | se => exact ⟨⟨.e, .inl rfl, rfl⟩, .s, .inr rfl, rfl⟩
  | sw => exact ⟨⟨.w, .inr rfl, rfl⟩, .s, .inl rfl, rfl⟩
  | nw => exact ⟨⟨.w, .inl rfl, rfl⟩, .n, .inr rfl, rfl⟩
  | _ => cases diagonal

/-- From any cell a diagonal run and a straight one beside it lead to any other cell. -/
theorem exists_runs (a b : Point)
    : ∃ (d f : Direction) (i j : Nat),
        d.diagonal = true
        ∧ (f = d.turn 7 ∨ f = d.turn 1)
        ∧ (a.along d i).along f j = b := by
  obtain ⟨d, diagonal, towardsX, towardsY⟩ := Direction.exists_towards (b - a)
  obtain ⟨⟨level, besideX, alongX⟩, upright, besideY, alongY⟩ := Direction.exists_beside diagonal
  generalize width : (b - a).x.natAbs = m at towardsX
  generalize height : (b - a).y.natAbs = n at towardsY
  simp only [Point.sub_x, Point.sub_y] at towardsX towardsY
  -- The diagonal run covers the lesser offset, the straight one the rest of the greater.
  rcases Nat.le_total n m with wide | tall
  · refine ⟨d, level, n, m - n, diagonal, besideX, Point.ext ?_ ?_⟩
    · have whole : (n : Int) + (m - n : Nat) = m := by omega
      simp only [Point.along, Point.add_x, Point.scale_x, alongX]
      rw [Int.add_assoc, ← Int.mul_add, whole, towardsX]
      omega
    · simp only [Point.along, Point.add_y, Point.scale_y, alongX, towardsY]
      omega
  · refine ⟨d, upright, m, n - m, diagonal, besideY, Point.ext ?_ ?_⟩
    · simp only [Point.along, Point.add_x, Point.scale_x, alongY, towardsX]
      omega
    · have whole : (m : Int) + (n - m : Nat) = n := by omega
      simp only [Point.along, Point.add_y, Point.scale_y, alongY]
      rw [Int.add_assoc, ← Int.mul_add, whole, towardsY]
      omega

/-- Any cell is reached at the octile cost. -/
theorem freeWalk_octile (a b : Point) : FreeWalk a b (octile a b) := by
  obtain ⟨d, f, i, j, diagonal, beside, rfl⟩ := exists_runs a b
  have walk := ((FreeWalk.here : FreeWalk a a 0).run d i).run f j
  simpa only [octile_bend a i j diagonal beside, Int.zero_add] using walk

-----------------------------------------------------------------------------------------
-- No cheaper walk
-----------------------------------------------------------------------------------------

/-- No walk costs less than the octile cost between its ends, by induction over its steps: one more
step is a way round whose second part costs as much as the step.
-/
theorem FreeWalk.octile_le {a b : Point} {cost : Int} (walk : FreeWalk a b cost)
    : octile a b ≤ cost := by
  induction walk with
  | here => simp
  | @step p _ _ d ih =>
      have round := octile_triangle a p (p + d.delta)
      have one := octile_along p d 1
      simp only [Point.along_succ, Point.along_zero] at one
      omega

/-- Different cells are apart. -/
theorem octile_eq_zero {a b : Point} : octile a b = 0 ↔ a = b := by
  constructor
  · intro none
    obtain ⟨offsetX, offsetY⟩ := difference_le_octile a b
    apply Point.ext <;> omega
  · rintro rfl
    exact octile_self a

theorem octile_comm (a b : Point) : octile a b = octile b a := by
  simp only [octile_eq_max]
  omega

/-- As long as the octile costs between three cells fit, they are computed within the words. Each is
the least cost of all walks between its cells on free ground, zero only for equal cells, the same in
both directions, and no greater than that of a way round. On a map no walk between two cells costs
less, and as an estimate to a third cell it falls along a walk by no more than the walk costs.
-/
theorem octile_isDistance {a b c : Point} (first : InInt32 (octile a b))
    (second : InInt32 (octile b c)) (whole : InInt32 (octile a c))
    : Checked.octile a b = some (octile a b)
      ∧ Checked.octile b c = some (octile b c)
      ∧ Checked.octile a c = some (octile a c)
      ∧ IsLeast {cost | FreeWalk a b cost} (octile a b)
      ∧ (octile a b = 0 ↔ a = b)
      ∧ Checked.octile b a = some (octile a b)
      ∧ octile a c ≤ octile a b + octile b c
      ∧ ∀ (t : Terrain) (cost : Int), t.Walk a b cost
          → octile a b ≤ cost ∧ octile a c ≤ cost + octile b c := by
  have computed {p q : Point} (fits : InInt32 (octile p q))
      : Checked.octile p q = some (octile p q) := by
    rw [Checked.octile_eq, octile?, int32?_of_fits fits]
  have back : Checked.octile b a = some (octile a b) := by
    rw [octile_comm] at first ⊢
    exact computed first
  refine ⟨computed first, computed second, computed whole, ⟨freeWalk_octile a b, ?_⟩,
    octile_eq_zero, back, octile_triangle a b c, fun t cost walk => ⟨?_, walk.octile_le c⟩⟩
  · exact fun cost walk => walk.octile_le
  · simpa using walk.octile_le b

/-- Costs close to the greatest one that a word of 32 bits holds. -/
theorem octile_isDistance_far
    : InInt32 (octile ⟨0, 0⟩ ⟨400000000, 3⟩)
      ∧ InInt32 (octile ⟨400000000, 3⟩ ⟨-7, -20000000⟩)
      ∧ InInt32 (octile ⟨0, 0⟩ ⟨-7, -20000000⟩)
      ∧ Checked.octile ⟨0, 0⟩ ⟨400000000, 3⟩ = some 2000000006
      ∧ IsLeast {cost | FreeWalk ⟨0, 0⟩ ⟨400000000, 3⟩ cost} 2000000006
      ∧ octile ⟨0, 0⟩ ⟨-7, -20000000⟩
        ≤ 2000000006 + octile ⟨400000000, 3⟩ ⟨-7, -20000000⟩ := by
  have first : InInt32 (octile ⟨0, 0⟩ ⟨400000000, 3⟩) := by decide
  have second : InInt32 (octile ⟨400000000, 3⟩ ⟨-7, -20000000⟩) := by decide
  have whole : InInt32 (octile ⟨0, 0⟩ ⟨-7, -20000000⟩) := by decide
  obtain ⟨computed, _, _, least, _, _, triangle, _⟩ := octile_isDistance first second whole
  exact ⟨first, second, whole, computed, least, triangle⟩

end Wayfinding
