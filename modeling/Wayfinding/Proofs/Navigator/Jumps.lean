import Wayfinding.Navigator.Jump
import Wayfinding.Proofs.Checked.Searches
import Wayfinding.Proofs.Queries.RawPaths

/-! Jumps as they are defined by recursion. The jump from a cell looks at the next one: it ends
there, or goes on from it, a diagonal one after jumps along the two axes beside it. Carried out step
by step, with each stop registered the moment it is met, a jump registers the stops of the recursion
in this order, whatever registering does.
-/

namespace Wayfinding

-----------------------------------------------------------------------------------------
-- The recursion
-----------------------------------------------------------------------------------------

namespace Terrain

/-- A jump in direction `d` goes on at this cell: it is walkable, it is not the goal, and no turn
is forced there.
-/
structure Passes (t : Terrain) (goal : Point) (d : Direction) (q : Point) : Prop where
  free : t.walkable q = true
  other : q ≠ goal
  unforced : (t.forced q d).isEmpty = true

/-- Jump points by recursion: the jump from a cell in a direction has these stops, in this order,
and does or does not get to the goal.
-/
inductive Jumps (t : Terrain) (goal : Point) : Point → Direction → List Stop → Bool → Prop
  | blocked {p : Point} {d : Direction}
      (shut : t.walkable (p + d.delta) = false)
      : t.Jumps goal p d [] false
  | goal {p : Point} {d : Direction}
      (free : t.walkable (p + d.delta) = true)
      (same : p + d.delta = goal)
      : t.Jumps goal p d [⟨p + d.delta, d⟩] true
  | forced {p : Point} {d : Direction}
      (free : t.walkable (p + d.delta) = true)
      (other : p + d.delta ≠ goal)
      (turn : (t.forced (p + d.delta) d).isEmpty = false)
      : t.Jumps goal p d [⟨p + d.delta, d⟩] false
  | straight {p : Point} {d : Direction} {stops : List Stop} {found : Bool}
      (passes : t.Passes goal d (p + d.delta))
      (axis : d.diagonal = false)
      (ahead : t.Jumps goal (p + d.delta) d stops found)
      : t.Jumps goal p d stops found
  | left {p : Point} {d : Direction} {stops : List Stop}
      (passes : t.Passes goal d (p + d.delta))
      (diagonal : d.diagonal = true)
      (left : t.Jumps goal (p + d.delta) (d.turn 7) stops true)
      : t.Jumps goal p d stops true
  | right {p : Point} {d : Direction} {stops more : List Stop}
      (passes : t.Passes goal d (p + d.delta))
      (diagonal : d.diagonal = true)
      (left : t.Jumps goal (p + d.delta) (d.turn 7) stops false)
      (right : t.Jumps goal (p + d.delta) (d.turn 1) more true)
      : t.Jumps goal p d (stops ++ more) true
  | ahead {p : Point} {d : Direction} {stops more rest : List Stop} {found : Bool}
      (passes : t.Passes goal d (p + d.delta))
      (diagonal : d.diagonal = true)
      (left : t.Jumps goal (p + d.delta) (d.turn 7) stops false)
      (right : t.Jumps goal (p + d.delta) (d.turn 1) more false)
      (ahead : t.Jumps goal (p + d.delta) d rest found)
      : t.Jumps goal p d (stops ++ (more ++ rest)) found

variable {t : Terrain} {goal p q : Point} {d : Direction} {stops : List Stop} {found : Bool}

theorem Passes.arrive (passes : t.Passes goal d q)
    : t.arrive goal q d
      = if d.diagonal then
          (t.jump goal q (d.turn 7)).orElse fun _ =>
            (t.jump goal q (d.turn 1)).orElse fun _ => t.jump goal q d
        else t.jump goal q d := by
  have on : t.stopsAt goal d q = false := by
    rw [stopsAt, passes.unforced, beq_false_of_ne passes.other]
    rfl
  rw [Terrain.arrive, on]
  rfl

/-- The recursion has no other result than the jump, by induction over it. -/
theorem Jumps.jump_eq (jumps : t.Jumps goal p d stops found)
    : t.jump goal p d = ⟨stops, found⟩ := by
  induction jumps with
  | blocked shut =>
      rw [Terrain.jump_eq, step?, shut]
      rfl
  | goal free same =>
      rw [Terrain.jump_eq, step?_eq_some.mpr ⟨rfl, free⟩]
      simp [Terrain.arrive, stopsAt, stopAt, same]
  | forced free other turn =>
      rw [Terrain.jump_eq, step?_eq_some.mpr ⟨rfl, free⟩]
      simp [Terrain.arrive, stopsAt, stopAt, other, turn]
  | straight passes axis ahead ih =>
      rw [Terrain.jump_eq, step?_eq_some.mpr ⟨rfl, passes.free⟩]
      simpa [passes.arrive, axis] using ih
  | left passes diagonal left ih =>
      rw [Terrain.jump_eq, step?_eq_some.mpr ⟨rfl, passes.free⟩]
      simp [passes.arrive, diagonal, ih, Findings.orElse]
  | right passes diagonal left right ihLeft ihRight =>
      rw [Terrain.jump_eq, step?_eq_some.mpr ⟨rfl, passes.free⟩]
      simp [passes.arrive, diagonal, ihLeft, ihRight, Findings.orElse]
  | ahead passes diagonal left right ahead ihLeft ihRight ihAhead =>
      rw [Terrain.jump_eq, step?_eq_some.mpr ⟨rfl, passes.free⟩]
      simp [passes.arrive, diagonal, ihLeft, ihRight, ihAhead, Findings.orElse]

/-- What holds of a jump if it holds of the jumps from the next cell on holds of all jumps, by
induction over the number of steps that a jump takes at most.
-/
theorem jump_induction {P : Point → Direction → Prop}
    (step : ∀ p d,
      (t.walkable (p + d.delta) = true
        → P (p + d.delta) d
          ∧ (d.diagonal = true → P (p + d.delta) (d.turn 7) ∧ P (p + d.delta) (d.turn 1)))
      → P p d)
    : P p d := by
  induction bound : Checked.jumpSteps t p d using Nat.strong_induction_on generalizing p d with
  | h n ih =>
      subst bound
      refine step p d fun free => ?_
      have one := ray_eq t p d
      rw [step?_eq_some.mpr ⟨rfl, free⟩] at one
      have length := congrArg List.length one
      rw [List.length_cons] at length
      refine ⟨ih _ ?_ rfl, fun diagonal => ?_⟩
      · simp only [Checked.jumpSteps]
        omega
      · obtain ⟨left, right⟩ := Direction.not_diagonal_turn diagonal
        have beside {f : Direction} (axis : f.diagonal = false) : P (p + d.delta) f := by
          refine ih _ ?_ rfl
          have short : (t.ray (p + d.delta) f).length ≤ t.extent.side := length_run_le f _ _
          simp only [Checked.jumpSteps, axis, diagonal, Bool.false_eq_true, if_false, if_true]
          omega
        exact ⟨beside left, beside right⟩

/-- The recursion comes to an end from every cell. -/
theorem exists_jumps (t : Terrain) (goal p : Point) (d : Direction)
    : ∃ stops found, t.Jumps goal p d stops found := by
  refine jump_induction (t := t) (P := fun p d => ∃ stops found, t.Jumps goal p d stops found)
    fun p d next => ?_
  cases free : t.walkable (p + d.delta) with
  | false => exact ⟨_, _, .blocked free⟩
  | true =>
      obtain ⟨⟨rest, last, ahead⟩, beside⟩ := next free
      by_cases other : p + d.delta = goal
      · exact ⟨_, _, .goal free other⟩
      · cases unforced : (t.forced (p + d.delta) d).isEmpty with
        | false => exact ⟨_, _, .forced free other unforced⟩
        | true =>
            have passes : t.Passes goal d (p + d.delta) := ⟨free, other, unforced⟩
            cases diagonal : d.diagonal with
            | false => exact ⟨_, _, .straight passes diagonal ahead⟩
            | true =>
                obtain ⟨⟨stops, seen, left⟩, ⟨more, seen', right⟩⟩ := beside diagonal
                cases seen with
                | true => exact ⟨_, _, .left passes diagonal left⟩
                | false =>
                    cases seen' with
                    | true => exact ⟨_, _, .right passes diagonal left right⟩
                    | false => exact ⟨_, _, .ahead passes diagonal left right ahead⟩

/-- The recursion has exactly one result, that of the jump. -/
theorem jumps_iff
    : t.Jumps goal p d stops found ↔ t.jump goal p d = ⟨stops, found⟩ := by
  constructor
  · exact Jumps.jump_eq
  · intro same
    obtain ⟨stops', found', jumps⟩ := exists_jumps t goal p d
    cases jumps.jump_eq.symm.trans same
    exact jumps

-----------------------------------------------------------------------------------------
-- The ways to the stops
-----------------------------------------------------------------------------------------

/-- Steps from `p` onto walkable cells: `i` in direction `d`, of which there are none unless it is a
diagonal, and then `j` along an axis, which is beside the diagonal or the direction itself.
-/
structure Elbow (t : Terrain) (p : Point) (d f : Direction) (i j : Nat) : Prop where
  axis : d.diagonal = true ∧ (f = d.turn 7 ∨ f = d.turn 1)
    ∨ d.diagonal = false ∧ f = d ∧ i = 0
  first : ∀ k < i, t.walkable (p.along d (k + 1)) = true
  second : ∀ k < j, t.walkable ((p.along d i).along f (k + 1)) = true

variable {f : Direction} {i j : Nat}

/-- Such a way is as cheap as one on free ground. -/
theorem Elbow.cost (elbow : t.Elbow p d f i j)
    : octile p ((p.along d i).along f j) = i * diagonalCost + j * straightCost := by
  rcases elbow.axis with ⟨diagonal, beside⟩ | ⟨straight, rfl, rfl⟩
  · have straight := Direction.not_diagonal_beside diagonal beside
    rw [octile_bend p i j diagonal beside]
    simp [Direction.cost, diagonal, straight]
  · rw [Point.along_zero, octile_along]
    simp [Direction.cost, straight]

/-- Such a way joins the two cells. -/
def Joins (t : Terrain) (p : Point) (d : Direction) (q : Point) : Prop :=
  ∃ f i j, t.Elbow p d f i j ∧ q = (p.along d i).along f j

/-- A cell is at the end of a way without steps. -/
theorem joins_self (t : Terrain) (p : Point) (d : Direction) : t.Joins p d p := by
  cases diagonal : d.diagonal with
  | true =>
      refine ⟨d.turn 7, 0, 0, ⟨.inl ⟨diagonal, .inl rfl⟩, ?_, ?_⟩, by simp⟩ <;>
        exact fun k hk => absurd hk k.not_lt_zero
  | false =>
      refine ⟨d, 0, 0, ⟨.inr ⟨diagonal, rfl, rfl⟩, ?_, ?_⟩, by simp⟩ <;>
        exact fun k hk => absurd hk k.not_lt_zero

/-- Where the first step is followed by a way in the same direction, the way is one step longer. -/
theorem Joins.cons (joins : t.Joins (p + d.delta) d q) (free : t.walkable (p + d.delta) = true)
    : t.Joins p d q := by
  obtain ⟨f, i, j, elbow, rfl⟩ := joins
  have start : t.walkable (p.along d 1) = true := by
    rw [Point.along_succ, Point.along_zero]
    exact free
  rcases elbow.axis with ⟨diagonal, beside⟩ | ⟨straight, rfl, rfl⟩
  · refine ⟨f, i + 1, j, ⟨.inl ⟨diagonal, beside⟩, fun k hk => ?_, ?_⟩, by rw [Point.along_add]⟩
    · cases k with
      | zero => exact start
      | succ k =>
          rw [← Point.along_add]
          exact elbow.first k (Nat.lt_of_succ_lt_succ hk)
    · rw [← Point.along_add]
      exact elbow.second
  · refine ⟨f, 0, j + 1, ⟨.inr ⟨straight, rfl, rfl⟩, fun k hk => absurd hk k.not_lt_zero,
      fun k hk => ?_⟩, by simp only [Point.along_zero, Point.along_add]⟩
    rw [Point.along_zero]
    cases k with
    | zero => exact start
    | succ k =>
        rw [← Point.along_add]
        simpa only [Point.along_zero] using elbow.second k (Nat.lt_of_succ_lt_succ hk)

/-- Where a diagonal step is followed by a way along an axis beside it, it is the only one. -/
theorem Joins.turn {g : Direction} (joins : t.Joins (p + d.delta) g q)
    (diagonal : d.diagonal = true) (beside : g = d.turn 7 ∨ g = d.turn 1)
    (free : t.walkable (p + d.delta) = true)
    : t.Joins p d q := by
  obtain ⟨f, i, j, elbow, rfl⟩ := joins
  have straight := Direction.not_diagonal_beside diagonal beside
  have start : p.along d 1 = p + d.delta := by
    rw [Point.along_succ, Point.along_zero]
  rcases elbow.axis with ⟨oblique, _⟩ | ⟨_, rfl, rfl⟩
  · rw [straight] at oblique
    cases oblique
  · refine ⟨f, 1, j, ⟨.inl ⟨diagonal, beside⟩, fun k hk => ?_, ?_⟩,
      by rw [start, Point.along_zero]⟩
    · obtain rfl := Nat.lt_one_iff.mp hk
      rw [start]
      exact free
    · rw [start]
      simpa only [Point.along_zero] using elbow.second

/-- Every stop of a jump is at the end of such a way, by induction over the recursion. -/
theorem Jumps.joins (jumps : t.Jumps goal p d stops found) {stop : Stop} (member : stop ∈ stops)
    : t.Joins p d stop.cell := by
  induction jumps with
  | blocked shut => cases member
  | goal free same =>
      obtain rfl := List.mem_singleton.mp member
      exact (joins_self t _ _).cons free
  | forced free other turn =>
      obtain rfl := List.mem_singleton.mp member
      exact (joins_self t _ _).cons free
  | straight passes axis ahead ih => exact (ih member).cons passes.free
  | left passes diagonal left ih => exact (ih member).turn diagonal (.inl rfl) passes.free
  | right passes diagonal left right ihLeft ihRight =>
      rcases List.mem_append.mp member with first | second
      · exact (ihLeft first).turn diagonal (.inl rfl) passes.free
      · exact (ihRight second).turn diagonal (.inr rfl) passes.free
  | ahead passes diagonal left right ahead ihLeft ihRight ihAhead =>
      rcases List.mem_append.mp member with first | later
      · exact (ihLeft first).turn diagonal (.inl rfl) passes.free
      · rcases List.mem_append.mp later with second | third
        · exact (ihRight second).turn diagonal (.inr rfl) passes.free
        · exact (ihAhead third).cons passes.free

end Terrain

-----------------------------------------------------------------------------------------
-- Registering on the way
-----------------------------------------------------------------------------------------

namespace Checked

variable {t : Terrain} {goal p : Point} {d : Direction} {σ ε : Type}

namespace Buffers

variable {register : Stop → σ → Option (Except ε Unit × σ)}

theorem registerAll_singleton (stop : Stop) (s : σ)
    : registerAll register [stop] s = register stop s := by
  rw [registerAll]
  obtain _ | ⟨_ | _, s⟩ := register stop s <;> rfl

/-- Stops are registered list by list, by induction over the first list. -/
theorem registerAll_append (stops more : List Stop) (s : σ)
    : registerAll register (stops ++ more) s
      = (registerAll register stops s).bind fun outcome =>
          unlessRefused outcome (registerAll register more) := by
  induction stops generalizing s with
  | nil => rfl
  | cons stop stops ih =>
      rw [List.cons_append, registerAll, registerAll]
      obtain _ | ⟨_ | _, s⟩ := register stop s
      · rfl
      · rfl
      · exact ih s

/-- Registers what is found and answers whether the goal is. -/
def settle (register : Stop → σ → Option (Except ε Unit × σ)) (found : Findings) (s : σ)
    : Option (Except ε Bool × σ) :=
  (registerAll register found.stops s).map (answer found.goal)

/-- At a stop, the stop is registered. -/
theorem settle_stopAt (q : Point) (s : σ)
    : settle register (Terrain.stopAt goal d q) s
      = (register ⟨q, d⟩ s).bind fun outcome => some (answer (q == goal) outcome) := by
  rw [settle, Terrain.stopAt, registerAll_singleton]
  cases register ⟨q, d⟩ s <;> rfl

/-- What is found first is registered first, and the rest only if it is not the goal. -/
theorem settle_orElse {a f : Findings} {b : Unit → Option Findings}
    (found : orElse a b = some f) {next : σ → Option (Except ε Bool × σ)}
    (later : ∀ more, b () = some more → ∀ s, next s = settle register more s) (s : σ)
    : ((settle register a s).bind fun outcome => unlessFound outcome next)
      = settle register f s := by
  rw [orElse] at found
  cases seen : a.goal with
  | true =>
      rw [if_pos seen] at found
      cases found
      rw [settle, seen]
      obtain _ | ⟨_ | _, s⟩ := registerAll register a.stops s <;> rfl
  | false =>
      rw [if_neg (by rw [seen]; decide), Option.map_eq_some_iff] at found
      obtain ⟨more, next_found, rfl⟩ := found
      rw [settle, settle, registerAll_append, seen]
      obtain _ | ⟨_ | _, s⟩ := registerAll register a.stops s
      · rfl
      · rfl
      · exact later more next_found s

/-- A jump that registers on its way registers what the jump finds, by induction over the number
of steps.
-/
theorem jump_eq_settle {steps : Nat} {f : Findings}
    (found : Checked.jump t goal steps p d = some f) (s : σ)
    : jump t goal register steps p d s = settle register f s := by
  induction steps generalizing p d f s with
  | zero => cases found
  | succ steps ih =>
      rw [Checked.jump] at found
      rw [jump]
      simp only [Option.bind_eq_bind, Option.pure_def] at found ⊢
      obtain ⟨next, taken, found⟩ := Option.bind_eq_some_iff.mp found
      rw [taken, Option.bind_some]
      cases next with
      | none =>
          cases found
          rfl
      | some q =>
          obtain ⟨stop, stopped, found⟩ := Option.bind_eq_some_iff.mp found
          obtain ⟨turns, computed, stopped⟩ := Option.bind_eq_some_iff.mp stopped
          cases stopped
          simp only [computed, Option.bind_some]
          by_cases same : q = goal
          · simp only [same, beq_self_eq_true, Bool.true_or, if_true, Option.some.injEq] at found ⊢
            rw [← found, settle_stopAt, beq_self_eq_true]
          simp only [beq_false_of_ne same, Bool.false_or, same, if_false] at found ⊢
          cases unforced : turns.isEmpty with
          | false =>
              simp only [unforced, Bool.not_false, if_true, Option.some.injEq] at found ⊢
              rw [← found, settle_stopAt, beq_false_of_ne same]
          | true =>
              simp only [unforced, Bool.not_true, Bool.false_eq_true, if_false] at found ⊢
              cases diagonal : d.diagonal with
              | false =>
                  simp only [diagonal, Bool.false_eq_true, if_false] at found ⊢
                  exact ih found s
              | true =>
                  simp only [diagonal, if_true, Option.bind_eq_some_iff] at found ⊢
                  obtain ⟨left, turned, first, found_left, found⟩ := found
                  rw [turned, Option.bind_some, ih found_left]
                  refine settle_orElse found (fun more found s => ?_) s
                  simp only [Option.bind_eq_some_iff] at found
                  obtain ⟨right, turned, second, found_right, found⟩ := found
                  rw [turned, Option.bind_some, ih found_right]
                  exact settle_orElse found (fun more found s => ih found s) s

/-- Jumps in several directions register what they find, by induction over the directions. -/
theorem jumps_eq_settle {ds : List Direction} {f : Findings}
    (found : Checked.jumps t goal p ds = some f) (s : σ)
    : jumps t goal register p ds s = settle register f s := by
  induction ds generalizing f s with
  | nil =>
      cases found
      rfl
  | cons d ds ih =>
      rw [Checked.jumps] at found
      obtain ⟨first, found_first, found⟩ := Option.bind_eq_some_iff.mp found
      rw [jumps, Option.bind_eq_bind, jump_eq_settle found_first]
      exact settle_orElse found (fun more found s => ih found s) s

/-- Considering stops is one way of registering them. -/
theorem considerAll_eq_registerAll (goal : Point) (source : Node) (stops : List Stop)
    (s : State t.extent)
    : considerAll goal source stops s
      = registerAll (fun stop s => consider goal source s stop) stops s := by
  induction stops generalizing s with
  | nil => rfl
  | cons stop stops ih =>
      rw [considerAll, registerAll]
      obtain _ | ⟨_ | _, s⟩ := consider goal source s stop
      · rfl
      · rfl
      · exact ih s

/-- A node is expanded by jumps from its cell, each stop being considered as soon as it is met. -/
theorem expand_eq_jumps {node : Node} (inside : t.extent.contains node.cell = true)
    (s : State t.extent)
    : expand t goal node s
      = (jumps t goal (fun stop s => consider goal node s stop) node.cell
          (t.directions node.cell node.heading) s).map
            fun outcome => (outcome.1.map fun _ => (), outcome.2) := by
  have found : Checked.jumps t goal node.cell (t.directions node.cell node.heading)
      = some (t.jumps goal node.cell (t.directions node.cell node.heading)) := jumps_eq inside _
  rw [expand, stops_eq inside, Option.bind_eq_bind, Option.bind_some, jumps_eq_settle found, settle,
    ← considerAll_eq_registerAll]
  obtain _ | ⟨_ | _, s⟩ := considerAll goal node _ s <;> rfl

/-- A jump comes to an end within twice as many steps as the longer side has and one more, and gives
what the recursion gives. Step by step, it registers the stops of the recursion, in this order and no
others, and answers whether it got to the goal. Every stop is joined to the cell where the jump began
by walkable cells, along a diagonal and then along an axis, and the way costs exactly the octile cost.
-/
theorem jump_follows_recursion (goal : Point) (inside : t.extent.contains p = true) (d : Direction)
    {steps : Nat} (enough : 2 * t.extent.side < steps)
    : ∃ stops found,
        (∀ stops' found', t.Jumps goal p d stops' found' ↔ stops' = stops ∧ found' = found)
        ∧ Checked.jump t goal steps p d = some ⟨stops, found⟩
        ∧ (∀ (σ ε : Type) (register : Stop → σ → Option (Except ε Unit × σ)) (s : σ),
            jump t goal register steps p d s
            = (registerAll register stops s).map (answer found))
        ∧ ∀ stop ∈ stops,
            ∃ (f : Direction) (i j : Nat),
              t.Elbow p d f i j
              ∧ stop.cell = (p.along d i).along f j
              ∧ Wayfinding.octile p stop.cell = i * diagonalCost + j * straightCost := by
  obtain ⟨stops, found, jumps⟩ := Terrain.exists_jumps t goal p d
  have ended : Checked.jump t goal steps p d = some ⟨stops, found⟩ := by
    rw [jump_eq inside (Nat.lt_of_le_of_lt (jumpSteps_le t p d) enough), jumps.jump_eq]
  refine ⟨stops, found, fun stops' found' => ?_, ended,
    fun σ ε register s => jump_eq_settle ended s, fun stop member => ?_⟩
  · rw [Terrain.jumps_iff, jumps.jump_eq, Findings.mk.injEq, eq_comm, @eq_comm _ found]
  · obtain ⟨f, i, j, elbow, cell⟩ := jumps.joins member
    refine ⟨f, i, j, elbow, cell, ?_⟩
    rw [cell]
    exact elbow.cost

/-- A diagonal jump that gets to the goal along the axis to its left, with a record of what is
registered.
-/
theorem jump_follows_recursion_squeeze
    : GridMap.squeeze.extent.contains ⟨2, 2⟩ = true
      ∧ 2 * GridMap.squeeze.extent.side < 9
      ∧ GridMap.squeeze.terrain.Jumps ⟨3, 0⟩ ⟨2, 2⟩ .ne [⟨⟨3, 0⟩, .n⟩] true
      ∧ jump GridMap.squeeze.terrain ⟨3, 0⟩
          (fun stop record => some ((.ok () : Except Empty Unit), record ++ [stop]))
          9 ⟨2, 2⟩ .ne []
        = some (.ok true, [⟨⟨3, 0⟩, .n⟩]) := by
  have inside : GridMap.squeeze.terrain.extent.contains ⟨2, 2⟩ = true := by decide
  have enough : 2 * GridMap.squeeze.terrain.extent.side < 9 := by decide
  obtain ⟨stops, found, only, ended, registers, _⟩ :=
    jump_follows_recursion ⟨3, 0⟩ inside .ne enough
  have computed : Checked.jump GridMap.squeeze.terrain ⟨3, 0⟩ 9 ⟨2, 2⟩ .ne
      = some ⟨[⟨⟨3, 0⟩, .n⟩], true⟩ := by decide +kernel
  rw [computed] at ended
  cases ended
  exact ⟨inside, enough, (only _ _).mpr ⟨rfl, rfl⟩, registers _ _ _ _⟩

end Buffers

end Checked

end Wayfinding
