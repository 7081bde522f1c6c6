import Wayfinding.Proofs.Search.Runs
import Wayfinding.Search.Trail

/-! The way of a jump. A jump goes along a diagonal and then along an axis beside it, so the way
to any cell that it passes bends at most once, and it is as short as on free ground. The place of
the bend can be told from the two ends alone.
-/

namespace Wayfinding

namespace Terrain

variable {t : Terrain} {goal p q x : Point} {d f : Direction} {i j n : Nat} {c : Int}

/-- All cells of a line are walkable, its first one included. -/
def Clear (t : Terrain) (p : Point) (d : Direction) (n : Nat) : Prop :=
  ∀ k ≤ n, t.walkable (p.along d k) = true

theorem clear_zero (free : t.walkable p = true) (d : Direction) : t.Clear p d 0 := by
  intro k hk
  obtain rfl := Nat.le_zero.mp hk
  simpa using free

/-- A clear line can be extended onto a walkable cell. -/
theorem Clear.succ (clear : t.Clear p d n) (free : t.walkable (p.along d n + d.delta) = true)
    : t.Clear p d (n + 1) := by
  intro k hk
  rcases Nat.le_succ_iff.mp hk with before | rfl
  · exact clear k before
  · rw [Point.along_succ]
    exact free

theorem Clear.last (clear : t.Clear p d n) : t.walkable (p.along d n) = true :=
  clear n (Nat.le_refl n)

/-- A clear diagonal line and a clear line along an axis beside it from its end on. Either may
have no step.
-/
structure Bend (t : Terrain) (p : Point) (d f : Direction) (i j : Nat) : Prop where
  diagonal : d.diagonal = true
  beside : f = d.turn 7 ∨ f = d.turn 1
  first : t.Clear p d i
  second : t.Clear (p.along d i) f j

end Terrain

theorem Direction.delta_of_diagonal {d : Direction} (h : d.diagonal = true)
    : (d.delta.x = 1 ∨ d.delta.x = -1) ∧ (d.delta.y = 1 ∨ d.delta.y = -1) := by
  cases d <;> first | decide | cases h

/-- A bend goes on along one axis by the steps of its second line, by cases over the directions. -/
private theorem bend_offset (p : Point) {d f : Direction} (i j : Nat)
    (diagonal : d.diagonal = true) (beside : f = d.turn 7 ∨ f = d.turn 1)
    : ∃ m n : Nat,
        (p.along d i).along f j - p = ⟨d.delta.x * m, d.delta.y * n⟩
        ∧ (m = i + j ∧ n = i ∨ m = i ∧ n = i + j) := by
  simp only [Point.ext_iff, Point.along, Point.sub_x, Point.sub_y, Point.add_x, Point.add_y,
    Point.scale_x, Point.scale_y]
  rcases beside with rfl | rfl <;> cases d <;> simp only [Direction.diagonal, Direction.index,
    Direction.turn, Direction.ofIndex, Direction.delta] at diagonal ⊢ <;> first
    | exact absurd diagonal (by decide)
    | exact ⟨i + j, i, by omega, by omega⟩
    | exact ⟨i, i + j, by omega, by omega⟩

/-- A bend is as cheap as a way on free ground. -/
theorem octile_bend (p : Point) {d f : Direction} (i j : Nat) (diagonal : d.diagonal = true)
    (beside : f = d.turn 7 ∨ f = d.turn 1)
    : octile p ((p.along d i).along f j) = i * d.cost + j * f.cost := by
  obtain ⟨m, n, offset, lengths⟩ := bend_offset p i j diagonal beside
  obtain ⟨unitX, unitY⟩ := Direction.delta_of_diagonal diagonal
  have straight := Direction.not_diagonal_beside diagonal beside
  have offsetX := congrArg Point.x offset
  have offsetY := congrArg Point.y offset
  simp only [Point.sub_x, Point.sub_y] at offsetX offsetY
  simp only [octile, Direction.cost, diagonal, straight, if_true, Bool.false_eq_true, if_false,
    diagonalCost, straightCost]
  rcases unitX with hx | hx <;> rcases unitY with hy | hy <;> rw [hx] at offsetX <;>
    rw [hy] at offsetY <;> omega

/-- The place where a bend turns from the diagonal to the axis is found again. -/
theorem turningPoint?_bend (p : Point) {d f : Direction} (i j : Nat)
    (diagonal : d.diagonal = true) (beside : f = d.turn 7 ∨ f = d.turn 1)
    : turningPoint? ((p.along d i).along f j) p
      = if i = 0 ∨ j = 0 then none else some (p.along d i) := by
  obtain ⟨m, n, offset, lengths⟩ := bend_offset p i j diagonal beside
  obtain ⟨unitX, unitY⟩ := Direction.delta_of_diagonal diagonal
  have absX : (d.delta.x * m).natAbs = m := by
    rcases unitX with hx | hx <;> rw [hx] <;> omega
  have absY : (d.delta.y * n).natAbs = n := by
    rcases unitY with hy | hy <;> rw [hy] <;> omega
  simp only [turningPoint?, offset, absX, absY]
  by_cases bent : i = 0 ∨ j = 0
  · rw [if_pos bent]
    exact if_pos (by omega)
  · have signX : (d.delta.x * m).sign = d.delta.x := by
      rw [Int.sign_mul, Int.sign_natCast_of_ne_zero (by omega), Int.mul_one]
      rcases unitX with hx | hx <;> rw [hx] <;> rfl
    have signY : (d.delta.y * n).sign = d.delta.y := by
      rw [Int.sign_mul, Int.sign_natCast_of_ne_zero (by omega), Int.mul_one]
      rcases unitY with hy | hy <;> rw [hy] <;> rfl
    have length : min (m : Int) n = i := by omega
    rw [if_neg bent, if_neg (by omega), Point.signum, signX, signY, length]
    rfl

namespace Terrain

variable {t : Terrain} {goal p q x : Point} {d f : Direction} {i j : Nat} {c : Int}

theorem Bend.straight (h : t.Bend p d f i j) : f.diagonal = false :=
  Direction.not_diagonal_beside h.diagonal h.beside

theorem Bend.cost (h : t.Bend p d f i j)
    : octile p ((p.along d i).along f j) = i * d.cost + j * f.cost :=
  octile_bend p i j h.diagonal h.beside

theorem Bend.succ (h : t.Bend p d f i j)
    (free : t.walkable ((p.along d i).along f j + f.delta) = true)
    : t.Bend p d f i (j + 1) :=
  { h with second := h.second.succ free }

/-- A bend without a second line may go one step further along its diagonal. -/
theorem Bend.succ_first (h : t.Bend p d f i 0)
    (free : t.walkable (p.along d i + d.delta) = true)
    : t.Bend p d f (i + 1) 0 := by
  have first := h.first.succ free
  exact ⟨h.diagonal, h.beside, first, clear_zero first.last f⟩

/-- A bend without a second line may take any axis beside its diagonal. -/
theorem Bend.turn {k : Direction} (h : t.Bend p d f i 0) (beside : k = d.turn 7 ∨ k = d.turn 1)
    : t.Bend p d k i 0 :=
  ⟨h.diagonal, beside, h.first, clear_zero h.first.last k⟩

/-- Every direction is part of a bend that has no step yet. -/
private theorem exists_bend_zero (free : t.walkable p = true) (d : Direction)
    : ∃ g k, t.Bend p g k 0 0 ∧ (d = g ∨ d = k) := by
  have stay (k : Direction) : t.Clear (p.along k 0) k 0 := clear_zero (by simpa using free) k
  cases diagonal : d.diagonal with
  | true =>
      refine ⟨d, d.turn 7, ⟨diagonal, Or.inl rfl, clear_zero free d, ?_⟩, Or.inl rfl⟩
      exact clear_zero (by simpa using free) _
  | false =>
      refine ⟨d.turn 7, d, ⟨?_, Or.inr ?_, clear_zero free _, ?_⟩, Or.inr rfl⟩
      · cases d <;> first | rfl | cases diagonal
      · cases d <;> rfl
      · exact clear_zero (by simpa using free) _

/-- One step of a jump makes its bend longer. -/
private theorem Bend.extend {g : Direction} (h : t.Bend p d f i j)
    (heading : g = d ∧ j = 0 ∨ g = f)
    (free : t.walkable ((p.along d i).along f j + g.delta) = true)
    : ∃ i' j',
        t.Bend p d f i' j'
        ∧ (p.along d i).along f j + g.delta = (p.along d i').along f j'
        ∧ 0 < i' + j'
        ∧ i * d.cost + j * f.cost + g.cost = i' * d.cost + j' * f.cost
        ∧ (g = d ∧ j' = 0 ∨ g = f) := by
  rcases heading with ⟨rfl, rfl⟩ | rfl
  · rw [Point.along_zero] at free ⊢
    refine ⟨i + 1, 0, h.succ_first free, ?_, by omega, ?_, Or.inl ⟨rfl, rfl⟩⟩
    · rw [Point.along_zero, Point.along_succ]
    · rw [Int.natCast_succ, Int.add_mul]
      omega
  · refine ⟨i, j + 1, h.succ free, (Point.along_succ ..).symm, by omega, ?_, Or.inr rfl⟩
    rw [Int.natCast_succ, Int.add_mul]
    omega

/-- A jump gets to a cell by a bend: in the direction of the diagonal as long as there is no second
line, and otherwise in the direction of the axis. By induction over the cells on the way.
-/
private theorem Sweep.exists_bend (free : t.walkable p = true) (h : t.Sweep goal p d x f c)
    : ∃ g k i j,
        t.Bend p g k i j
        ∧ x = (p.along g i).along k j
        ∧ 0 < i + j
        ∧ c = i * g.cost + j * k.cost
        ∧ (f = g ∧ j = 0 ∨ f = k) := by
  induction h with
  | first target =>
      obtain ⟨g, k, bend, heading⟩ := exists_bend_zero free d
      obtain ⟨i, j, bend, cell, moved, cost, heading⟩ := bend.extend (g := d)
        (heading.imp (fun same => ⟨same, rfl⟩) id) (by simpa using target)
      exact ⟨g, k, i, j, bend, by simpa using cell, moved, by simpa using cost, heading⟩
  | @next x f h c passed _ follows target ih =>
      obtain ⟨g, k, i, j, bend, rfl, moved, rfl, heading⟩ := ih
      rcases naturalDirections_contains.mp follows with rfl | ⟨diagonal, side⟩
      · obtain ⟨i', j', further⟩ := bend.extend heading target
        exact ⟨g, k, i', j', further⟩
      · rcases heading with ⟨rfl, rfl⟩ | rfl
        · rw [Point.along_zero] at target
          obtain ⟨i', j', bend, cell, moved, cost, heading⟩ :=
            (bend.turn side).extend (Or.inr rfl) (by simpa using target)
          refine ⟨_, _, i', j', bend, ?_, moved, ?_, heading⟩
          · simpa using cell
          · simpa using cost
        · rw [bend.straight] at diagonal
          cases diagonal

theorem Sweep.bend (free : t.walkable p = true) (h : t.Sweep goal p d x f c)
    : ∃ g k i j, t.Bend p g k i j ∧ x = (p.along g i).along k j ∧ 0 < i + j := by
  obtain ⟨g, k, i, j, bend, cell, moved, _⟩ := h.exists_bend free
  exact ⟨g, k, i, j, bend, cell, moved⟩

/-- The way of a jump is as cheap as one on free ground. -/
theorem Sweep.cost_eq (free : t.walkable p = true) (h : t.Sweep goal p d x f c)
    : c = octile p x := by
  obtain ⟨g, k, i, j, bend, rfl, _, rfl, _⟩ := h.exists_bend free
  exact bend.cost.symm

/-- The way of a jump is a walk, by induction over the cells on the way. -/
theorem Sweep.walk (free : t.walkable p = true) (h : t.Sweep goal p d x f c) : t.Walk p x c := by
  induction h with
  | first target => simpa using Walk.step (.here free) d target
  | @next x f g c _ _ _ target ih => exact .step ih g target

/-- The cell that a jump gets to in direction `f` is one such step away from the end of a walk. -/
theorem Sweep.last_step (free : t.walkable p = true) (h : t.Sweep goal p d x f c)
    : ∃ y r, x = y + f.delta ∧ c = r + f.cost ∧ t.Walk p y r := by
  cases h with
  | first target => exact ⟨p, 0, rfl, by simp, .here free⟩
  | @next y h _ r passed _ _ target => exact ⟨y, r, rfl, rfl, passed.walk free⟩

end Terrain

end Wayfinding
