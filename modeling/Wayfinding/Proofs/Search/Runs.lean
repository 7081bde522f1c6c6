import Wayfinding.Proofs.Walks
import Wayfinding.Search.Jump

/-! A jump step by step. No run inside an extent is longer than its longer side, so a jump takes
one step and goes on from the cell it reaches; the cells it passes are what it sweeps.
-/

namespace Wayfinding

-----------------------------------------------------------------------------------------
-- Directions that follow a run
-----------------------------------------------------------------------------------------

theorem Direction.not_diagonal_turn {d : Direction} (h : d.diagonal = true)
    : (d.turn 7).diagonal = false ∧ (d.turn 1).diagonal = false := by
  cases d <;> first | exact ⟨rfl, rfl⟩ | cases h

/-- An axis beside a diagonal is none. -/
theorem Direction.not_diagonal_beside {d f : Direction} (diagonal : d.diagonal = true)
    (beside : f = d.turn 7 ∨ f = d.turn 1)
    : f.diagonal = false := by
  obtain ⟨left, right⟩ := not_diagonal_turn diagonal
  rcases beside with rfl | rfl
  · exact left
  · exact right

/-- A run is followed by its own direction, and a diagonal one by the two axes beside it too. -/
theorem naturalDirections_contains {d f : Direction}
    : (naturalDirections (some d)).contains f = true
      ↔ f = d ∨ d.diagonal = true ∧ (f = d.turn 7 ∨ f = d.turn 1) := by
  cases diagonal : d.diagonal with
  | false => simp [naturalDirections, diagonal]
  | true =>
      simp only [naturalDirections, diagonal, if_true, DirectionSet.contains_insert,
        DirectionSet.contains_empty, Bool.false_or, Bool.or_eq_true, decide_eq_true_eq, true_and]
      grind

-----------------------------------------------------------------------------------------
-- Cells in a line
-----------------------------------------------------------------------------------------

@[simp] theorem Point.scale_x (p : Point) (k : Int) : (p.scale k).x = p.x * k := rfl

@[simp] theorem Point.scale_y (p : Point) (k : Int) : (p.scale k).y = p.y * k := rfl

/-- The cell some steps from `p` in a direction. -/
def Point.along (p : Point) (d : Direction) (steps : Nat) : Point :=
  p + d.delta.scale steps

@[simp] theorem Point.along_zero (p : Point) (d : Direction) : p.along d 0 = p := by
  apply Point.ext <;> simp [along]

theorem Point.along_succ (p : Point) (d : Direction) (steps : Nat)
    : p.along d (steps + 1) = p.along d steps + d.delta := by
  apply Point.ext <;> simp only [along, Point.add_x, Point.add_y, Point.scale_x, Point.scale_y,
    Int.natCast_succ, Int.mul_add, Int.mul_one, Int.add_assoc]

theorem Point.along_add (p : Point) (d : Direction) (steps : Nat)
    : (p + d.delta).along d steps = p.along d (steps + 1) := by
  apply Point.ext <;> simp only [along, Point.add_x, Point.add_y, Point.scale_x, Point.scale_y,
    Int.natCast_succ, Int.mul_add, Int.mul_one] <;> omega

-----------------------------------------------------------------------------------------
-- Findings
-----------------------------------------------------------------------------------------

namespace Findings

/-- Unless `b` finds the goal, neither does `a`, and `b` has all stops of `a`. -/
def Within (a b : Findings) : Prop :=
  b.goal = false → a.goal = false ∧ a.stops ⊆ b.stops

theorem Within.refl (a : Findings) : a.Within a :=
  fun unseen => ⟨unseen, List.Subset.refl _⟩

theorem Within.trans {a b c : Findings} (first : a.Within b) (second : b.Within c)
    : a.Within c := by
  intro unseen
  obtain ⟨unseenB, partBC⟩ := second unseen
  obtain ⟨unseenA, partAB⟩ := first unseenB
  exact ⟨unseenA, List.Subset.trans partAB partBC⟩

theorem within_orElse_left (a : Findings) (b : Unit → Findings) : a.Within (a.orElse b) := by
  intro unseen
  rw [orElse] at unseen ⊢
  cases seen : a.goal <;> simp_all

theorem within_orElse_right (a : Findings) (b : Unit → Findings)
    : (b ()).Within (a.orElse b) := by
  intro unseen
  rw [orElse] at unseen ⊢
  cases seen : a.goal <;> simp_all

/-- All stops have a property, and the goal is one of them if it is found. -/
structure Satisfies (f : Findings) (goal : Point) (P : Point → Direction → Prop) : Prop where
  stops : ∀ stop ∈ f.stops, P stop.cell stop.heading
  goal : f.goal = true → ∃ stop ∈ f.stops, stop.cell = goal

theorem satisfies_nothing (goal : Point) (P : Point → Direction → Prop)
    : nothing.Satisfies goal P :=
  ⟨by simp [nothing], by simp [nothing]⟩

/-- What follows from a property of the stops is one of them too. -/
theorem Satisfies.imp {f : Findings} {goal : Point} {P Q : Point → Direction → Prop}
    (h : f.Satisfies goal P) (weaker : ∀ x d, P x d → Q x d)
    : f.Satisfies goal Q :=
  ⟨fun stop member => weaker _ _ (h.stops stop member), h.goal⟩

/-- Findings one after the other have what each of them has. -/
theorem Satisfies.orElse {a : Findings} {b : Unit → Findings} {goal : Point}
    {P : Point → Direction → Prop} (ha : a.Satisfies goal P) (hb : (b ()).Satisfies goal P)
    : (a.orElse b).Satisfies goal P := by
  rw [Findings.orElse]
  split
  · exact ha
  · constructor
    · intro stop member
      rcases List.mem_append.mp member with first | second
      · exact ha.stops stop first
      · exact hb.stops stop second
    · intro seen
      obtain ⟨stop, member, same⟩ := hb.goal seen
      exact ⟨stop, List.mem_append_right _ member, same⟩

end Findings

namespace Terrain

variable {t : Terrain} {goal p q x : Point} {d f g : Direction} {c : Int}

-----------------------------------------------------------------------------------------
-- Rays
-----------------------------------------------------------------------------------------

/-- Every cell of a run is walkable, by induction over its steps. -/
theorem walkable_of_lt_run {n k : Nat} (h : k < (t.run d n p).length)
    : t.walkable (p.along d (k + 1)) = true := by
  induction n generalizing p k with
  | zero => simp [run] at h
  | succ n ih =>
      rw [run] at h
      split at h
      · simp at h
      · rename_i q step
        obtain ⟨rfl, free⟩ := step?_eq_some.mp step
        cases k with
        | zero => simpa [Point.along_succ] using free
        | succ k =>
            rw [← Point.along_add]
            exact ih (by simpa using h)

/-- No run is longer than the longer side: its first and its last cell lie inside. -/
theorem length_run_le (d : Direction) (n : Nat) (p : Point)
    : (t.run d n p).length ≤ t.extent.side := by
  by_cases empty : (t.run d n p).length = 0
  · omega
  · have first := contains_of_walkable (walkable_of_lt_run (Nat.pos_of_ne_zero empty))
    have last := contains_of_walkable
      (walkable_of_lt_run (Nat.sub_one_lt empty))
    rw [Nat.sub_add_cancel (Nat.pos_of_ne_zero empty)] at last
    rw [Extent.contains_iff] at first last
    simp only [Point.along, Point.add_x, Point.add_y, Point.scale_x, Point.scale_y] at first last
    rw [Extent.side]
    cases d <;> simp only [Direction.delta] at first last <;> omega

/-- A run that is over before its steps are used up is not changed by one more. -/
theorem run_succ_of_length_le {n : Nat} (h : (t.run d (n + 1) p).length ≤ n)
    : t.run d (n + 1) p = t.run d n p := by
  induction n generalizing p with
  | zero => simpa [run] using h
  | succ n ih =>
      rw [run] at h ⊢
      rw [run]
      cases step : t.step? p d with
      | none => rfl
      | some q =>
          simp only [step, List.length_cons, Nat.add_le_add_iff_right] at h
          simp only [ih h]

/-- The ray from a cell is the first step and the ray from there. -/
theorem ray_eq (t : Terrain) (p : Point) (d : Direction)
    : t.ray p d
      = match t.step? p d with
        | none => []
        | some q => q :: t.ray q d := by
  unfold ray
  rw [← run_succ_of_length_le (length_run_le d _ p)]
  cases step : t.step? p d with
  | none => simp only [run, step]
  | some q => simp only [run, step]

-----------------------------------------------------------------------------------------
-- Jumps by single steps
-----------------------------------------------------------------------------------------

/-- What a jump in direction `d` finds from the cell `q` on, which it has just reached. -/
def arrive (t : Terrain) (goal q : Point) (d : Direction) : Findings :=
  if t.stopsAt goal d q then stopAt goal d q
  else if d.diagonal then
    (t.jump goal q (d.turn 7)).orElse fun _ =>
      (t.jump goal q (d.turn 1)).orElse fun _ => t.jump goal q d
  else t.jump goal q d

/-- A jump takes one step and goes on from the cell it reaches. -/
theorem jump_eq (t : Terrain) (goal p : Point) (d : Direction)
    : t.jump goal p d
      = match t.step? p d with
        | none => .nothing
        | some q => t.arrive goal q d := by
  cases diagonal : d.diagonal with
  | false =>
      simp only [jump, diagonal, Bool.false_eq_true, if_false, jumpStraight, arrive]
      rw [ray_eq]
      cases t.step? p d with
      | none => rfl
      | some q =>
          simp only [List.find?_cons]
          cases t.stopsAt goal d q <;> simp
  | true =>
      obtain ⟨left, right⟩ := Direction.not_diagonal_turn diagonal
      simp only [jump, diagonal, if_true, arrive, left, right, Bool.false_eq_true, if_false]
      rw [ray_eq]
      cases t.step? p d <;> rfl

-----------------------------------------------------------------------------------------
-- What a jump finds
-----------------------------------------------------------------------------------------

/-- The cells that a jump from `p` in direction `d` passes, each with the direction in which it
gets there and the cost of the way. It stops at a goal or a forced turn; from any other cell it
goes on in the directions that follow its run.
-/
inductive Sweep (t : Terrain) (goal p : Point) (d : Direction) : Point → Direction → Int → Prop
  | first (free : t.walkable (p + d.delta) = true) : t.Sweep goal p d (p + d.delta) d d.cost
  | next {x : Point} {f g : Direction} {c : Int} (passed : t.Sweep goal p d x f c)
    (on : t.stopsAt goal f x = false)
    (follows : (naturalDirections (some f)).contains g = true)
    (free : t.walkable (x + g.delta) = true)
    : t.Sweep goal p d (x + g.delta) g (c + g.cost)

/-- What a jump finds beyond a cell that it passes is part of what it finds, by induction over
the cells on the way.
-/
theorem Sweep.within (h : t.Sweep goal p d x f c)
    : (t.arrive goal x f).Within (t.jump goal p d) := by
  induction h with
  | first free =>
      rw [jump_eq, step?_eq_some.mpr ⟨rfl, free⟩]
      exact .refl _
  | @next x f g c _ on follows free ih =>
      have beyond : (t.arrive goal (x + g.delta) g).Within (t.jump goal x g) := by
        rw [jump_eq, step?_eq_some.mpr ⟨rfl, free⟩]
        exact .refl _
      refine beyond.trans (Findings.Within.trans ?_ ih)
      simp only [arrive, on, Bool.false_eq_true, if_false]
      rcases naturalDirections_contains.mp follows with rfl | ⟨diagonal, rfl | rfl⟩
      · cases diagonal : g.diagonal with
        | false => exact .refl _
        | true =>
            have last : (t.jump goal x g).Within
                ((t.jump goal x (g.turn 1)).orElse fun _ => t.jump goal x g) :=
              Findings.within_orElse_right _ fun _ => t.jump goal x g
            exact last.trans (Findings.within_orElse_right (t.jump goal x (g.turn 7)) fun _ =>
              (t.jump goal x (g.turn 1)).orElse fun _ => t.jump goal x g)
      · rw [if_pos diagonal]
        exact Findings.within_orElse_left _ _
      · rw [if_pos diagonal]
        exact (Findings.within_orElse_left _ fun _ => t.jump goal x f).trans
          (Findings.within_orElse_right (t.jump goal x (f.turn 7)) fun _ =>
            (t.jump goal x (f.turn 1)).orElse fun _ => t.jump goal x f)

/-- A stop that a jump gets to is found, unless the jump finds the goal. -/
theorem Sweep.mem_stops (h : t.Sweep goal p d x f c) (stop : t.stopsAt goal f x = true)
    (unseen : (t.jump goal p d).goal = false)
    : ⟨x, f⟩ ∈ (t.jump goal p d).stops := by
  refine (h.within unseen).2 ?_
  simp [arrive, stop, stopAt]

/-- Properties of cells and headings that the steps of a jump keep. -/
def KeptBySteps (t : Terrain) (goal : Point) (P : Point → Direction → Prop) : Prop :=
  ∀ x f g,
    P x f
    → t.stopsAt goal f x = false
    → (naturalDirections (some f)).contains g = true
    → t.walkable (x + g.delta) = true
    → P (x + g.delta) g

/-- What holds of the cells beyond the first step holds of the stops of a jump. -/
private theorem jump_satisfies_of {P : Point → Direction → Prop}
    (beyond : ∀ q, t.step? p d = some q → (t.arrive goal q d).Satisfies goal P)
    : (t.jump goal p d).Satisfies goal P := by
  rw [jump_eq]
  cases step : t.step? p d with
  | none => exact Findings.satisfies_nothing goal P
  | some q => exact beyond q step

/-- What holds of a cell and of the jumps that follow holds of the stops from that cell on. -/
private theorem arrive_satisfies_of {P : Point → Direction → Prop} (holds : P x f)
    (beyond : t.stopsAt goal f x = false
      → ∀ g, (naturalDirections (some f)).contains g = true
          → (t.jump goal x g).Satisfies goal P)
    : (t.arrive goal x f).Satisfies goal P := by
  rw [arrive]
  split
  · exact ⟨by simpa [stopAt] using holds, by simp [stopAt]⟩
  · rename_i on
    have follow {g : Direction} (follows : g = f ∨ f.diagonal = true
        ∧ (g = f.turn 7 ∨ g = f.turn 1)) :=
      beyond (by simpa using on) g (naturalDirections_contains.mpr follows)
    split
    · rename_i diagonal
      exact (follow (Or.inr ⟨diagonal, Or.inl rfl⟩)).orElse
        ((follow (Or.inr ⟨diagonal, Or.inr rfl⟩)).orElse (follow (Or.inl rfl)))
    · exact follow (Or.inl rfl)

/-- A property that steps keep holds of every stop from a cell on, if it does so one step ahead and
beside the cell.
-/
private theorem arrive_satisfies_of_ahead {P : Point → Direction → Prop}
    (kept : t.KeptBySteps goal P)
    (sides : f.diagonal = true
      → ∀ y g, g.diagonal = false → P y g → (t.arrive goal y g).Satisfies goal P)
    (ahead : ∀ q, t.step? x f = some q → P q f → (t.arrive goal q f).Satisfies goal P)
    (holds : P x f)
    : (t.arrive goal x f).Satisfies goal P := by
  refine arrive_satisfies_of holds fun on g follows => jump_satisfies_of fun q step => ?_
  obtain ⟨rfl, free⟩ := step?_eq_some.mp step
  have reached := kept x f g holds on follows free
  rcases naturalDirections_contains.mp follows with rfl | ⟨diagonal, side⟩
  · exact ahead _ step reached
  · obtain ⟨left, right⟩ := Direction.not_diagonal_turn diagonal
    rcases side with rfl | rfl
    · exact sides diagonal _ _ left reached
    · exact sides diagonal _ _ right reached

/-- The same without the step ahead, by induction over the ray that is still to come. -/
private theorem arrive_satisfies_of_sides {P : Point → Direction → Prop}
    (kept : t.KeptBySteps goal P)
    (sides : f.diagonal = true
      → ∀ y g, g.diagonal = false → P y g → (t.arrive goal y g).Satisfies goal P)
    (holds : P x f)
    : (t.arrive goal x f).Satisfies goal P := by
  generalize ray : t.ray x f = cells
  induction cells generalizing x with
  | nil =>
      refine arrive_satisfies_of_ahead kept sides (fun q step _ => ?_) holds
      rw [ray_eq, step] at ray
      cases ray
  | cons next cells ih =>
      refine arrive_satisfies_of_ahead kept sides (fun q step reached => ?_) holds
      rw [ray_eq, step] at ray
      exact ih reached (List.cons.inj ray).2

/-- A property that steps keep holds of every stop of a jump if it holds after the first step. -/
theorem jump_satisfies {P : Point → Direction → Prop} (kept : t.KeptBySteps goal P)
    (first : t.walkable (p + d.delta) = true → P (p + d.delta) d)
    : (t.jump goal p d).Satisfies goal P := by
  have straight : ∀ y g, g.diagonal = false → P y g → (t.arrive goal y g).Satisfies goal P :=
    fun y g axis holds => arrive_satisfies_of_sides kept (by simp [axis]) holds
  refine jump_satisfies_of fun q step => ?_
  obtain ⟨rfl, free⟩ := step?_eq_some.mp step
  exact arrive_satisfies_of_sides kept (fun _ => straight) (first free)

/-- Every stop of a jump is a cell that the jump gets to. -/
theorem jump_sweeps (t : Terrain) (goal p : Point) (d : Direction)
    : (t.jump goal p d).Satisfies goal fun x f => ∃ c, t.Sweep goal p d x f c :=
  jump_satisfies
    (fun _ _ _ ⟨_, passed⟩ on follows free => ⟨_, .next passed on follows free⟩)
    (fun free => ⟨_, .first free⟩)

-----------------------------------------------------------------------------------------
-- Jumps in several directions
-----------------------------------------------------------------------------------------

/-- Every jump is part of the jumps in all directions, by induction over the directions. -/
theorem jump_within_jumps {ds : List Direction} (member : d ∈ ds)
    : (t.jump goal p d).Within (t.jumps goal p ds) := by
  induction ds with
  | nil => simp at member
  | cons g ds ih =>
      rw [jumps]
      rcases List.mem_cons.mp member with rfl | later
      · exact Findings.within_orElse_left _ _
      · exact (ih later).trans (Findings.within_orElse_right _ fun _ => t.jumps goal p ds)

/-- What holds of the stops of each jump holds of those of all jumps. -/
theorem jumps_satisfies {P : Point → Direction → Prop} {ds : List Direction}
    (each : ∀ d ∈ ds, (t.jump goal p d).Satisfies goal P)
    : (t.jumps goal p ds).Satisfies goal P := by
  induction ds with
  | nil => exact Findings.satisfies_nothing goal P
  | cons d ds ih =>
      exact (each d (by simp)).orElse (ih fun g member => each g (List.mem_cons_of_mem d member))

theorem jumps_sweep (t : Terrain) (goal p : Point) (ds : List Direction)
    : (t.jumps goal p ds).Satisfies goal fun x f => ∃ d c, t.Sweep goal p d x f c :=
  jumps_satisfies fun d _ => (t.jump_sweeps goal p d).imp fun _ _ ⟨c, sweep⟩ => ⟨d, c, sweep⟩

end Terrain

end Wayfinding
