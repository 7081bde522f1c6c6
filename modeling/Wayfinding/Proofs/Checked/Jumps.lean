import Wayfinding.Checked.Jump
import Wayfinding.Proofs.Bounds
import Wayfinding.Proofs.Search.Runs

/-! Costs, cells and jumps come out in machine words as they are. No number exceeds the octile cost
or the number of cells, no step leaves an extent by more than one cell, and a jump comes to an end
because its runs do.
-/

namespace Wayfinding.Checked

variable {e : Extent} {α : Type} {t : Terrain} {goal p : Point} {d : Direction}

-----------------------------------------------------------------------------------------
-- Costs
-----------------------------------------------------------------------------------------

/-- One check of the octile cost covers all operations that lead to it. -/
theorem octile_eq (a b : Point) : octile a b = octile? a b := by
  rw [octile?]
  by_cases fits : InInt32 (Wayfinding.octile a b)
  · have small := difference_le_octile a b
    have whole : Wayfinding.octile a b ≤ 2147483647 := fits.2
    have offsets : InInt32 (a.x - b.x) ∧ InInt32 (a.y - b.y) := by
      constructor <;> constructor <;> omega
    have sizes : InInt32 (a.x - b.x).natAbs ∧ InInt32 (a.y - b.y).natAbs := by
      constructor <;> constructor <;> omega
    simp only [octile, int32?_of_fits offsets.1, int32?_of_fits offsets.2, int32?_of_fits sizes.1,
      int32?_of_fits sizes.2, Option.bind_eq_bind, Option.bind_some]
    rw [Wayfinding.octile, diagonalCost, straightCost] at whole ⊢
    rw [int32?_of_fits (by constructor <;> omega), Option.bind_some,
      int32?_of_fits (by constructor <;> omega), Option.bind_some,
      int32?_of_fits (by constructor <;> omega), Option.bind_some]
  · rw [int32?_eq_none.mpr fits, Option.eq_none_iff_forall_ne_some]
    intro c computed
    simp only [octile, Option.bind_eq_bind, Option.bind_eq_some_iff, int32?_eq_some] at computed
    obtain ⟨_, ⟨rfl, _⟩, _, ⟨rfl, _⟩, _, ⟨rfl, _⟩, _, ⟨rfl, _⟩, _, ⟨rfl, _⟩, _, ⟨rfl, _⟩, _,
      ⟨rfl, _⟩, rfl, whole⟩ := computed
    exact fits whole

-----------------------------------------------------------------------------------------
-- Layers
-----------------------------------------------------------------------------------------

/-- There are fewer cells than a quarter of the numbers that an unsigned word of 64 bits holds. -/
theorem area_lt (e : Extent) : e.area < 4611686018427387904 := by
  have product := Int.mul_le_mul e.width_le e.height_le (Int.le_of_lt e.height_pos) (by decide)
  rw [← e.area_cast] at product
  omega

theorem place_eq (e : Extent) (p : Point) : place e p = some (e.index? p) := by
  rw [place, Extent.index?]
  cases inside : e.contains p with
  | false => rfl
  | true =>
      obtain ⟨west, _, north, _⟩ := Extent.contains_iff.mp inside
      have sum : p.y.toNat * e.width.toNat + p.x.toNat = e.index p := by
        have exact := Extent.index_cast inside
        have width := Int.toNat_of_nonneg (Int.le_of_lt e.width_pos)
        rw [← Int.toNat_of_nonneg west, ← Int.toNat_of_nonneg north, ← width] at exact
        exact_mod_cast exact.symm
      have bound := Nat.lt_trans (Extent.index_lt inside) (area_lt e)
      have row : p.y.toNat * e.width.toNat < 18446744073709551616 := by omega
      have small : e.index p < 18446744073709551616 := by omega
      simp only [if_true, word64?, if_pos row, Option.bind_eq_bind, Option.bind_some, sum,
        if_pos small]
      rfl

theorem index?_of_contains (inside : e.contains p = true) : e.index? p = some (e.index p) := by
  rw [Extent.index?, if_pos inside]

theorem read_eq (l : Layer e α) (inside : e.contains p = true) (outside : α)
    : read l p = some (l.get p outside) := by
  have bound := Extent.index_lt inside
  rw [read, place_eq, index?_of_contains inside, Layer.get, dif_pos inside]
  simp [bound]

/-- The place of a cell inside is one that can be written. -/
theorem put_index (l : Layer e α) (inside : e.contains p = true) (v : α)
    : put l (e.index p) v = some (l.set p v) := by
  rw [put, dif_pos (Extent.index_lt inside), Layer.set, dif_pos inside]

theorem write_eq (l : Layer e α) (inside : e.contains p = true) (v : α)
    : write l p v = some (l.set p v) := by
  rw [write, place_eq, index?_of_contains inside]
  exact put_index l inside v

-----------------------------------------------------------------------------------------
-- Steps and turns
-----------------------------------------------------------------------------------------

theorem walkable_eq (t : Terrain) (p : Point) : walkable t p = some (t.walkable p) := by
  rw [walkable, place_eq, Terrain.walkable, Layer.get]
  by_cases inside : t.extent.contains p = true
  · have bound := Extent.index_lt inside
    rw [index?_of_contains inside, dif_pos inside]
    simp [bound]
  · simp [Extent.index?, inside]

/-- A step from a cell inside leads to a cell whose coordinates fit. -/
theorem add?_delta (inside : e.contains p = true) (d : Direction)
    : p.add? d.delta = some (p + d.delta) := by
  have width := e.width_le
  have height := e.height_le
  obtain ⟨west, east, north, south⟩ := Extent.contains_iff.mp inside
  rw [Point.add?, Point.checked?_eq_some]
  refine ⟨rfl, ?_, ?_⟩
  all_goals
    simp only [Point.add_x, Point.add_y]
    cases d <;> simp only [Direction.delta] <;> constructor <;> omega

theorem step_eq (inside : t.extent.contains p = true) (d : Direction)
    : step t p d = some (t.step? p d) := by
  rw [step, add?_delta inside, Option.bind_eq_bind, Option.bind_some, walkable_eq]
  rfl

/-- The numbers of directions are small, so turns of less than a whole one are exact. -/
theorem turn?_eq (d : Direction) {k : Nat} (small : k < 8) : d.turn? k = some (d.turn k) := by
  have index := d.index_lt
  rw [Direction.turn?, byte?, if_pos (by omega)]
  rfl

theorem openAt_eq (inside : t.extent.contains p = true) (d : Direction) {k : Nat} (small : k < 8)
    : openAt t p d k = some (t.openAt p d k) := by
  rw [openAt, turn?_eq d small, Option.bind_eq_bind, Option.bind_some, step_eq inside]
  rfl

theorem addForced_eq (inside : t.extent.contains p = true) (d : Direction) {out side : Nat}
    (smallOut : out < 8) (smallSide : side < 8) (s : DirectionSet)
    : addForced t p d out side s = some (t.addForced p d out side s) := by
  rw [addForced, openAt_eq inside d smallOut, openAt_eq inside d smallSide, turn?_eq d smallOut,
    Terrain.addForced]
  simp only [Option.bind_eq_bind, Option.bind_some]
  split <;> rfl

theorem forced_eq (inside : t.extent.contains p = true) (d : Direction)
    : forced t p d = some (t.forced p d) := by
  rw [forced, Terrain.forced]
  split <;> rw [addForced_eq inside d (by decide) (by decide), Option.bind_eq_bind,
    Option.bind_some, addForced_eq inside d (by decide) (by decide)]

theorem naturalDirections_eq (d : Direction)
    : naturalDirections d = some (Wayfinding.naturalDirections (some d)) := by
  rw [naturalDirections, turn?_eq d (by decide), turn?_eq d (by decide),
    Wayfinding.naturalDirections]
  split <;> rfl

theorem directions_eq (inside : t.extent.contains p = true) (heading : Option Direction)
    : directions t p heading = some (t.directions p heading) := by
  cases heading with
  | none => rfl
  | some d => rw [directions, naturalDirections_eq, forced_eq inside]; rfl

-----------------------------------------------------------------------------------------
-- Jumps
-----------------------------------------------------------------------------------------

theorem orElse_eq (a : Findings) {b : Unit → Option Findings} {c : Unit → Findings}
    (same : b () = some (c ()))
    : orElse a b = some (a.orElse c) := by
  rw [orElse, Findings.orElse, same]
  split <;> rfl

theorem stopsAt_eq (inside : t.extent.contains p = true) (d : Direction)
    : stopsAt t goal d p = some (t.stopsAt goal d p) := by
  rw [stopsAt, forced_eq inside]
  rfl

/-- How many steps a jump takes at most: those of its run, and after them those of a run beside it
if it is diagonal.
-/
def jumpSteps (t : Terrain) (p : Point) (d : Direction) : Nat :=
  (t.ray p d).length + if d.diagonal then t.extent.side else 0

theorem jumpSteps_le (t : Terrain) (p : Point) (d : Direction)
    : jumpSteps t p d ≤ 2 * t.extent.side := by
  have short : (t.ray p d).length ≤ t.extent.side := Terrain.length_run_le d _ p
  rw [jumpSteps]
  split <;> omega

/-- A jump within enough steps comes to its end, by induction over the steps. -/
theorem jump_eq {steps : Nat} (inside : t.extent.contains p = true)
    (enough : jumpSteps t p d < steps)
    : jump t goal steps p d = some (t.jump goal p d) := by
  induction steps generalizing p d with
  | zero => omega
  | succ steps ih =>
      rw [jump, step_eq inside, Terrain.jump_eq]
      rw [jumpSteps, Terrain.ray_eq] at enough
      cases taken : t.step? p d with
      | none => rfl
      | some q =>
          have insideQ := Terrain.contains_of_walkable (Terrain.step?_eq_some.mp taken).2
          simp only [taken, List.length_cons] at enough
          simp only [Option.bind_eq_bind, Option.bind_some, stopsAt_eq insideQ, Terrain.arrive]
          cases t.stopsAt goal d q with
          | true => rfl
          | false =>
              cases diagonal : d.diagonal with
              | false =>
                  refine ih insideQ ?_
                  simp only [jumpSteps, diagonal, Bool.false_eq_true, if_false] at enough ⊢
                  omega
              | true =>
                  obtain ⟨left, right⟩ := Direction.not_diagonal_turn diagonal
                  simp only [diagonal, if_true] at enough
                  -- A run beside the diagonal one starts anew and ends within the longer side.
                  have beside {f : Direction} (axis : f.diagonal = false)
                      : jump t goal steps q f = some (t.jump goal q f) := by
                    refine ih insideQ ?_
                    have short : (t.ray q f).length ≤ t.extent.side := Terrain.length_run_le f _ q
                    simp only [jumpSteps, axis, Bool.false_eq_true, if_false]
                    omega
                  have ahead : jump t goal steps q d = some (t.jump goal q d) := by
                    refine ih insideQ ?_
                    simp only [jumpSteps, diagonal, if_true]
                    omega
                  simp only [Bool.false_eq_true, if_false, if_true, Option.bind_some,
                    turn?_eq d (show 7 < 8 by decide), turn?_eq d (show 1 < 8 by decide),
                    beside left, beside right]
                  exact orElse_eq _ (orElse_eq _ ahead)

/-- Jumps in several directions come to their end, by induction over the directions. -/
theorem jumps_eq (inside : t.extent.contains p = true) (ds : List Direction)
    : jumps t goal p ds = some (t.jumps goal p ds) := by
  induction ds with
  | nil => rfl
  | cons d ds ih =>
      rw [jumps, jump_eq inside (Nat.lt_succ_of_le (jumpSteps_le t p d)), Terrain.jumps]
      exact orElse_eq (b := fun _ => jumps t goal p ds) (c := fun _ => t.jumps goal p ds) _ ih

end Wayfinding.Checked
