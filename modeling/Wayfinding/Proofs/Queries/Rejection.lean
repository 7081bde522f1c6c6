import Mathlib.Tactic.IntervalCases
import Wayfinding.Proofs.Parts
import Wayfinding.Proofs.Queries.Frames

/-! Rejecting queries between different connected parts. While the marked parts are those of the
present obstacles, a query between joined cells is answered as if the parts were not asked, and any
other has no path. Steps along the axes may fail to join what a path through a squeeze joins; where
there is no squeeze, asking the parts never changes an answer.
-/

namespace Wayfinding

-----------------------------------------------------------------------------------------
-- Ways around a corner
-----------------------------------------------------------------------------------------

namespace Direction

variable {d : Direction}

theorem mem_neighbors_of_axis (p : Point) (axis : d.diagonal = false)
    : p + d.delta ∈ p.neighbors := by
  cases d <;> cases axis <;> simp [Point.neighbors, delta, Point.ext_iff] <;> omega

/-- Beside a diagonal step are two cells, each between its ends. -/
theorem mem_neighbors_of_diagonal (p : Point) (diagonal : d.diagonal = true) {k : Nat}
    (side : k = 1 ∨ k = 7)
    : p + (d.turn k).delta ∈ p.neighbors ∧ p + d.delta ∈ (p + (d.turn k).delta).neighbors := by
  rcases side with rfl | rfl <;> cases d <;> cases diagonal <;>
    simp [Point.neighbors, delta, turn, index, ofIndex, Point.ext_iff] <;> omega

end Direction

namespace Terrain

variable {t : Terrain} {start p q : Point} {c : Int} {d : Direction}

/-- In the block of four cells that begins at `p` in the north-west, one diagonal is walkable and the
two cells of the other are not.
-/
def Squeezed (t : Terrain) (p : Point) : Prop :=
  t.walkable p = t.walkable (p + ⟨1, 1⟩)
    ∧ t.walkable (p + ⟨1, 0⟩) = t.walkable (p + ⟨0, 1⟩)
    ∧ t.walkable p ≠ t.walkable (p + ⟨1, 0⟩)

instance (t : Terrain) (p : Point) : Decidable (t.Squeezed p) :=
  inferInstanceAs (Decidable (_ ∧ _ ∧ _))

/-- A diagonal step between walkable cells has a walkable cell beside it unless it is a squeeze. The
block of the step begins where the lesser coordinates of its ends meet.
-/
theorem exists_beside (wide : ∀ p, ¬ t.Squeezed p) (diagonal : d.diagonal = true)
    (free : t.walkable p = true) (target : t.walkable (p + d.delta) = true)
    : ∃ k, (k = 1 ∨ k = 7) ∧ t.walkable (p + (d.turn k).delta) = true := by
  by_contra closed
  have right : t.walkable (p + (d.turn 1).delta) = false :=
    Bool.eq_false_iff.mpr fun side => closed ⟨1, Or.inl rfl, side⟩
  have left : t.walkable (p + (d.turn 7).delta) = false :=
    Bool.eq_false_iff.mpr fun side => closed ⟨7, Or.inr rfl, side⟩
  have sides := right.trans left.symm
  have differ {x y : Bool} (hx : x = true) (hy : y = false) : x ≠ y := by simp [hx, hy]
  have block := wide (p + ⟨min d.delta.x 0, min d.delta.y 0⟩)
  rw [Squeezed, Point.add_assoc, Point.add_assoc, Point.add_assoc] at block
  rw [← Point.add_zero p] at free
  have ends := free.trans target.symm
  apply block
  cases d with
  | ne => exact ⟨sides.symm, ends.symm, (differ target left).symm⟩
  | se => exact ⟨ends, sides.symm, differ free left⟩
  | sw => exact ⟨sides, ends, (differ free right).symm⟩
  | nw => exact ⟨ends.symm, sides, differ target right⟩
  | _ => cases diagonal

/-- Where there is no squeeze, what a walk leads to is joined by steps along the axes, by induction
over the walk: a diagonal step is replaced by a way around one of the cells beside it.
-/
theorem Walk.joined (wide : ∀ p, ¬ t.Squeezed p) (walk : t.Walk start p c) : t.Joined start p := by
  induction walk with
  | here free => exact .here free
  | @step p _ before d free joined =>
      cases diagonal : d.diagonal with
      | false => exact joined.step (d.mem_neighbors_of_axis p diagonal) free
      | true =>
          obtain ⟨k, side, beside⟩ := exists_beside wide diagonal before.walkable free
          obtain ⟨first, second⟩ := d.mem_neighbors_of_diagonal p diagonal side
          exact (joined.step first beside).step second free

end Terrain

-----------------------------------------------------------------------------------------
-- Answers with and without the marked parts
-----------------------------------------------------------------------------------------

namespace GridMap

variable {m : GridMap} {start goal : Point}

/-- The parts were marked after the last edit of the obstacles. -/
inductive FreshlyMarked : GridMap → Prop
  | mark (m : GridMap) : FreshlyMarked m.markComponents
  | configure {m : GridMap} (marked : FreshlyMarked m) (settings : Settings)
    : FreshlyMarked (m.configure settings)
  | query {m : GridMap} (marked : FreshlyMarked m) (smooth : Bool) (start goal : Point)
    : FreshlyMarked (m.queryCells smooth start goal).2
  | way {m : GridMap} (marked : FreshlyMarked m) (start goal : Position)
    : FreshlyMarked (m.findWay start goal).2

/-- Freshly marked parts are those of the present obstacles, since nothing else than an edit changes
the obstacles and queries leave both alone.
-/
theorem FreshlyMarked.components_eq (marked : m.FreshlyMarked)
    : m.components = some m.terrain.components := by
  induction marked with
  | mark => rfl
  | configure _ _ present => exact present
  | @query m _ smooth start goal present =>
      have undisturbed := m.undisturbed_queryCells smooth start goal
      generalize (m.queryCells smooth start goal).2 = after at undisturbed
      obtain ⟨_, _, _, rfl⟩ := undisturbed
      exact present
  | @way m _ start goal present =>
      have undisturbed := m.undisturbed_findWay start goal
      generalize (m.findWay start goal).2 = after at undisturbed
      obtain ⟨_, _, _, rfl⟩ := undisturbed
      exact present

/-- Freshly marked parts speak for exactly those queries between walkable cells whose ends are
joined.
-/
theorem FreshlyMarked.mayConnect_iff (marked : m.FreshlyMarked) (free : m.walkable start = true)
    (target : m.walkable goal = true)
    : m.mayConnect start goal = true ↔ m.terrain.Joined start goal := by
  have parted := m.terrain.numbered_components.parted
  have inside : m.terrain.extent.contains start = true := Terrain.contains_of_walkable free
  have labelled : m.terrain.components.label start ≠ 0 := fun unset => by
    have closed := (parted.blocked start inside).mp unset
    rw [show m.terrain.walkable start = true from free] at closed
    cases closed
  rw [mayConnect, marked.components_eq, ← parted.joined start goal free target]
  simp only [Components.joined, Bool.and_eq_true, bne_iff_ne, beq_iff_eq]
  exact and_iff_right labelled

/-- The map with the setting that queries between different connected parts are rejected, or not. -/
def rejecting (m : GridMap) (reject : Bool) : GridMap :=
  m.configure { m.settings with connectivityReject := reject }

/-- The answer of a query is that of the check of its ends or else its route, smoothed if asked for.
-/
theorem queryCells_fst (m : GridMap) (smooth : Bool) (start goal : Point)
    : (m.queryCells smooth start goal).1
      = (m.checkEnds start goal).1.bind fun _ =>
          (m.route start goal).map
            (Option.map fun cells => if smooth then m.terrain.smooth cells else cells) := by
  rw [queryCells]
  rcases checked : m.checkEnds start goal with ⟨_ | _, after⟩
  · rfl
  · obtain ⟨free, target⟩ := walkable_of_checkEnds checked
    rw [checkEnds_of_walkable free target] at checked
    cases checked
    have same := m.route_record (some start, some goal) start goal
    simp only [same]
    rcases m.route start goal with _ | _ | cells <;> rfl

/-- The check of the ends does not ask for the settings. -/
theorem checkEnds_configure (m : GridMap) (settings : Settings) (start goal : Point)
    : ((m.configure settings).checkEnds start goal).1 = (m.checkEnds start goal).1 := by
  have inside (p : Point) : (m.configure settings).checkInside p = m.checkInside p := rfl
  rw [checkEnds, checkEnds, inside, inside]
  cases m.checkInside start with
  | error => rfl
  | ok =>
      cases m.checkInside goal with
      | error => rfl
      | ok =>
          have free (p : Point) : GridMap.walkable
              { m.configure settings with start := some start, goal := some goal } p
              = m.walkable p := rfl
          have free' (p : Point) : GridMap.walkable
              { m with start := some start, goal := some goal } p = m.walkable p := rfl
          simp only [free, free']
          split
          · rfl
          · split <;> rfl

/-- Maps that differ in their settings alone answer alike if they smooth alike and their routes
between walkable cells are the same.
-/
theorem queryCells_configure {settings : Settings} (smooth : Bool)
    (routes : m.walkable start = true → m.walkable goal = true
      → (m.configure settings).route start goal = m.route start goal)
    : ((m.configure settings).queryCells smooth start goal).1
      = (m.queryCells smooth start goal).1 := by
  rw [queryCells_fst, queryCells_fst, checkEnds_configure]
  rcases checked : m.checkEnds start goal with ⟨_ | _, after⟩
  · rfl
  · obtain ⟨free, target⟩ := walkable_of_checkEnds checked
    rw [routes free target]
    rfl

theorem queryCells_of_walkable (smooth : Bool) (free : m.walkable start = true)
    (target : m.walkable goal = true)
    : (m.queryCells smooth start goal).1
      = (m.route start goal).map
          (Option.map fun cells => if smooth then m.terrain.smooth cells else cells) := by
  rw [queryCells_fst, checkEnds_of_walkable free target]
  rfl

theorem mayConnect_configure (m : GridMap) (settings : Settings) (start goal : Point)
    : (m.configure settings).mayConnect start goal = m.mayConnect start goal := by
  rw [mayConnect, mayConnect, configure]
  cases m.components <;> rfl

/-- All that rejecting changes is that there is no route between different cells which the marked
parts do not join.
-/
theorem route_rejecting (m : GridMap) (reject : Bool) (start goal : Point)
    : (m.rejecting reject).route start goal
      = if start ≠ goal ∧ reject = true ∧ m.mayConnect start goal = false then .ok none
        else (m.rejecting false).route start goal := by
  have connect (reject : Bool)
      : (m.rejecting reject).mayConnect start goal = m.mayConnect start goal :=
    m.mayConnect_configure _ start goal
  have setting (reject : Bool) : (m.rejecting reject).settings.connectivityReject = reject := rfl
  have searched (reject : Bool)
      : (m.rejecting reject).terrain.search start goal = m.terrain.search start goal := rfl
  simp only [route, connect, setting]
  by_cases same : start = goal
  · simp [same]
  · cases reject with
    | false => simp
    | true =>
        cases m.mayConnect start goal with
        | false => simp [same]
        | true =>
            rw [searched true, searched false]
            simp only [same, Bool.true_eq_false, Bool.false_eq_true, and_false, if_false,
              Bool.not_true, Bool.and_false]
            rcases m.terrain.search start goal with _ | _ | _ <;> rfl

/-- Without asking for the marked parts there is no route where there is no walk. -/
theorem route_of_no_walk (fits : m.extent.CostsFit) (free : m.walkable start = true)
    (target : m.walkable goal = true) (nowhere : ¬ ∃ c, m.terrain.Walk start goal c)
    : (m.rejecting false).route start goal = .ok none := by
  have differ : start ≠ goal := fun same => nowhere ⟨0, same ▸ .here free⟩
  have inside := Terrain.contains_of_walkable target
  have ends : m.terrain.Ends start goal (m.terrain.search start goal) :=
    Terrain.search_ends fits free inside
  rw [route, if_neg differ, if_neg (by simp [rejecting, configure])]
  rw [show (m.rejecting false).terrain.search start goal = m.terrain.search start goal from rfl]
  generalize m.terrain.search start goal = outcome at ends
  cases ends with
  | nowhere => rfl
  | found _ _ cheapest => exact absurd ⟨_, cheapest.1⟩ nowhere

/-- A query that rejects is answered like one that does not if its ends are joined. -/
theorem FreshlyMarked.queryCells_of_joined (marked : m.FreshlyMarked) (smooth : Bool)
    (joined : m.terrain.Joined start goal)
    : ((m.rejecting true).queryCells smooth start goal).1
      = ((m.rejecting false).queryCells smooth start goal).1 := by
  have allowed := (marked.mayConnect_iff joined.symm.walkable joined.walkable).mpr joined
  refine queryCells_configure (m := m.rejecting false) smooth fun _ _ => ?_
  change (m.rejecting true).route start goal = _
  rw [route_rejecting, if_neg (by simp [allowed])]

/-- A query that rejects has no path if its ends are walkable and not joined. -/
theorem FreshlyMarked.queryCells_of_apart (marked : m.FreshlyMarked) (smooth : Bool)
    (free : m.walkable start = true) (target : m.walkable goal = true)
    (apart : ¬ m.terrain.Joined start goal)
    : ((m.rejecting true).queryCells smooth start goal).1 = .ok none := by
  have differ : start ≠ goal := fun same => apart (same ▸ .here free)
  have unconnected : m.mayConnect start goal = false :=
    Bool.eq_false_iff.mpr fun connects => apart ((marked.mayConnect_iff free target).mp connects)
  rw [queryCells_of_walkable smooth (m := m.rejecting true) free target, route_rejecting,
    if_pos ⟨differ, rfl, unconnected⟩]
  rfl

/-- Where there is no squeeze, a query that rejects is answered like one that does not: between cells
that are not joined there is no walk either.
-/
theorem FreshlyMarked.queryCells_of_wide (marked : m.FreshlyMarked) (fits : m.extent.CostsFit)
    (wide : ∀ p, ¬ m.terrain.Squeezed p) (smooth : Bool) (start goal : Point)
    : ((m.rejecting true).queryCells smooth start goal).1
      = ((m.rejecting false).queryCells smooth start goal).1 := by
  refine queryCells_configure (m := m.rejecting false) smooth fun free target => ?_
  change (m.rejecting true).route start goal = _
  rw [route_rejecting]
  split
  · rename_i rejected
    refine (route_of_no_walk fits free target fun way => ?_).symm
    obtain ⟨c, walk⟩ := way
    have allowed := (marked.mayConnect_iff free target).mpr (walk.joined wide)
    rw [rejected.2.2] at allowed
    cases allowed
  · rfl

/-- With freshly marked parts, to reject queries between different parts changes no answer for ends
that steps along the axes join, and gives all others between walkable cells the answer that there is
no path. Where there is no squeeze it changes no answer at all.
-/
theorem findCells_rejecting (fits : m.extent.CostsFit) (marked : m.FreshlyMarked)
    : (∀ start goal, m.walkable start = true → m.walkable goal = true
        → (m.terrain.Joined start goal
            → ((m.rejecting true).findCells start goal).1
                = ((m.rejecting false).findCells start goal).1
              ∧ ((m.rejecting true).findRawCells start goal).1
                = ((m.rejecting false).findRawCells start goal).1)
          ∧ (¬ m.terrain.Joined start goal
            → ((m.rejecting true).findCells start goal).1 = .ok none
              ∧ ((m.rejecting true).findRawCells start goal).1 = .ok none))
      ∧ ((∀ p, ¬ m.terrain.Squeezed p)
        → ∀ start goal,
            ((m.rejecting true).findCells start goal).1
              = ((m.rejecting false).findCells start goal).1
            ∧ ((m.rejecting true).findRawCells start goal).1
              = ((m.rejecting false).findRawCells start goal).1) := by
  refine ⟨fun start goal free target => ⟨fun joined => ⟨?_, ?_⟩, fun apart => ⟨?_, ?_⟩⟩,
    fun wide start goal => ⟨?_, ?_⟩⟩
  · exact marked.queryCells_of_joined _ joined
  · exact marked.queryCells_of_joined _ joined
  · exact marked.queryCells_of_apart _ free target apart
  · exact marked.queryCells_of_apart _ free target apart
  · exact marked.queryCells_of_wide fits wide _ start goal
  · exact marked.queryCells_of_wide fits wide _ start goal

/-- A map with one obstacle and a way around it. -/
def bypass : GridMap where
  extent := ⟨⟨3, 2⟩, by decide, by decide, by decide, by decide⟩
  blocked := (Layer.fill _ false).set ⟨1, 0⟩ true
  settings := {}
  components := none
  start := none
  goal := none
  latestPath := []

/-- Nothing is squeezed outside the rows and columns around the cells, and nothing inside. -/
theorem bypass_wide (p : Point) : ¬ bypass.terrain.Squeezed p := by
  intro squeezed
  obtain ⟨x, y⟩ := p
  have near : -1 ≤ x ∧ x < 3 ∧ 0 ≤ y ∧ y < 2 := by
    have differ := squeezed.2.2
    cases free : bypass.terrain.walkable ⟨x, y⟩ with
    | true =>
        have inside := Extent.contains_iff.mp (Terrain.contains_of_walkable free)
        simp only [terrain, bypass] at inside
        omega
    | false =>
        have beside : bypass.terrain.walkable (⟨x, y⟩ + ⟨1, 0⟩) = true := by
          rw [free] at differ
          exact Bool.eq_true_of_not_eq_false differ.symm
        have inside := Extent.contains_iff.mp (Terrain.contains_of_walkable beside)
        simp only [terrain, bypass, Point.add_x, Point.add_y] at inside
        omega
  obtain ⟨_, _, _, _⟩ := near
  interval_cases x <;> interval_cases y <;> revert squeezed <;> decide +kernel

/-- Through a squeeze there is a path that rejecting hides; around an obstacle it hides none. -/
theorem findCells_rejecting_squeeze
    : squeeze.markComponents.extent.CostsFit
      ∧ squeeze.markComponents.FreshlyMarked
      ∧ ((squeeze.markComponents.rejecting true).findRawCells ⟨0, 0⟩ ⟨3, 0⟩).1 = .ok none
      ∧ ((squeeze.markComponents.rejecting false).findRawCells ⟨0, 0⟩ ⟨3, 0⟩).1
        = .ok (some [⟨0, 0⟩, ⟨0, 1⟩, ⟨1, 2⟩, ⟨3, 0⟩])
      ∧ ((bypass.markComponents.rejecting true).findRawCells ⟨0, 0⟩ ⟨2, 0⟩).1
        = .ok (some [⟨0, 0⟩, ⟨1, 1⟩, ⟨2, 0⟩]) := by
  have fits : squeeze.markComponents.extent.CostsFit := by decide
  have marked := FreshlyMarked.mark squeeze
  have free : squeeze.markComponents.walkable ⟨0, 0⟩ = true := by decide +kernel
  have target : squeeze.markComponents.walkable ⟨3, 0⟩ = true := by decide +kernel
  have apart : ¬ squeeze.markComponents.terrain.Joined ⟨0, 0⟩ ⟨3, 0⟩ := by
    rw [← marked.mayConnect_iff free target]
    decide +kernel
  have hidden := ((findCells_rejecting fits marked).1 _ _ free target).2 apart
  have shown := ((findCells_rejecting (by decide) (FreshlyMarked.mark bypass)).2 bypass_wide
    ⟨0, 0⟩ ⟨2, 0⟩).2
  refine ⟨fits, marked, hidden.2, by decide +kernel, shown.trans ?_⟩
  decide +kernel

end GridMap

end Wayfinding
