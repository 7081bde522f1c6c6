import Wayfinding.Checked.Query
import Wayfinding.Proofs.Checked.Jumps

/-! Lines of sight. Looking for an obstacle goes through a list of cells that depends on the ends of
the line alone, those of the ends first, so it reports none but real obstacles, and more of them
never clear a line. All of its integers fit their words, because it begins with the ends and the
cells beside a crossing lie between them on one axis and are clamped on the other. None of this
depends on where the line is computed to cross the grid lines.
-/

namespace Wayfinding

-----------------------------------------------------------------------------------------
-- Lines that cross anywhere
-----------------------------------------------------------------------------------------

/-- Where a line crosses the grid lines, whatever arithmetic tells it: its ordinate at the grid line
at `x`, and its abscissa at the grid line at `y`.
-/
structure Trace where
  ordinate : Int → Float32
  abscissa : Int → Float32

namespace Position

/-- Where the straight line between two positions crosses the grid lines, by its slope. -/
def trace (a b : Position) : Trace where
  ordinate x := a.slope b * (single x - a.x) + a.y
  abscissa y := (single y - a.y) / a.slope b + a.x

/-- The cells beside all crossings of a line, wherever they are. -/
def crossingsBy (a b : Position) (trace : Trace) : List Point :=
  ((span (min a.cell.x b.cell.x + 1) (max a.cell.x b.cell.x)).flatMap fun x =>
    let y := Binary.floorInt32 (trace.ordinate x)
    [⟨x, y⟩, ⟨x - 1, y⟩])
    ++ (span (min a.cell.y b.cell.y + 1) (max a.cell.y b.cell.y)).flatMap fun y =>
      let x := Binary.floorInt32 (trace.abscissa y)
      [⟨x, y⟩, ⟨x, y - 1⟩]

theorem crossings_eq_crossingsBy (a b : Position)
    : a.crossings b = a.crossingsBy b (a.trace b) := rfl

end Position

namespace Terrain

/-- The first cell that blocks the line between two positions, wherever it crosses the grid lines.
-/
def obstacleBy? (t : Terrain) (a b : Position) (trace : Trace) : Option Point :=
  if !a.finite then some a.cell
  else if !b.finite then some b.cell
  else if !t.walkable a.cell then some a.cell
  else if !t.walkable b.cell then some b.cell
  else (a.crossingsBy b trace).find? fun p => !t.walkable p

theorem obstacle?_eq_obstacleBy? (t : Terrain) (a b : Position)
    : t.obstacle? a b = t.obstacleBy? a b (a.trace b) := rfl

end Terrain

namespace Checked

/-- The cells beside all crossings of a line in words, wherever they are. -/
def crossingsBy (a b : Position) (trace : Trace) : Option (List Point) := do
  let _ ← int32? (min a.cell.x b.cell.x + 1)
  let _ ← int32? (min a.cell.y b.cell.y + 1)
  (a.crossingsBy b trace).mapM Point.checked?

/-- The first cell that blocks the line between two positions in words, wherever it crosses the grid
lines.
-/
def obstacleBy (t : Terrain) (a b : Position) (trace : Trace) : Option (Option Point) := do
  if !a.finite then return some a.cell
  else if !b.finite then return some b.cell
  else if !(← walkable t a.cell) then return some a.cell
  else if !(← walkable t b.cell) then return some b.cell
  else firstBlocked t (← crossingsBy a b trace)

theorem obstacle_eq_obstacleBy (t : Terrain) (a b : Position)
    : obstacle t a b = obstacleBy t a b (a.trace b) := rfl

-----------------------------------------------------------------------------------------
-- Within the words
-----------------------------------------------------------------------------------------

variable {e : Extent} {t : Terrain} {a b : Position} {p : Point}

theorem checked?_of_fits (fits : p.Fits) : p.checked? = some p :=
  Point.checked?_eq_some.mpr ⟨rfl, fits⟩

theorem mem_span {low high x : Int} : x ∈ span low high ↔ low ≤ x ∧ x ≤ high := by
  simp only [span, List.mem_map, List.mem_range]
  constructor
  · rintro ⟨i, _, rfl⟩
    omega
  · intro between
    exact ⟨(x - low).toNat, by omega, by omega⟩

/-- The cells beside a crossing lie between the ends on one axis and are clamped on the other. -/
theorem crossingsBy_fit (a b : Position) (trace : Trace) : ∀ p ∈ a.crossingsBy b trace, p.Fits := by
  obtain ⟨westA, northA⟩ := a.cell_fits
  obtain ⟨westB, northB⟩ := b.cell_fits
  unfold InInt32 at westA northA westB northB
  intro p member
  rcases List.mem_append.mp member with column | row
  · obtain ⟨x, between, beside⟩ := List.mem_flatMap.mp column
    rw [mem_span] at between
    simp only [List.mem_cons, List.not_mem_nil, or_false] at beside
    rcases beside with rfl | rfl <;> refine ⟨?_, Binary.inInt32_floorInt32 _⟩ <;> constructor <;>
      dsimp only <;> omega
  · obtain ⟨y, between, beside⟩ := List.mem_flatMap.mp row
    rw [mem_span] at between
    simp only [List.mem_cons, List.not_mem_nil, or_false] at beside
    rcases beside with rfl | rfl <;> refine ⟨Binary.inInt32_floorInt32 _, ?_⟩ <;> constructor <;>
      dsimp only <;> omega

theorem mapM_checked? {l : List Point} (fit : ∀ p ∈ l, p.Fits)
    : l.mapM Point.checked? = some l := by
  induction l with
  | nil => rfl
  | cons p l ih =>
      rw [List.mapM_cons, checked?_of_fits (fit p List.mem_cons_self),
        ih fun q hq => fit q (List.mem_cons_of_mem p hq)]
      rfl

/-- Cells inside are not the last ones that fit, so the scans between them have where to begin. -/
theorem crossingsBy_eq (inside : e.contains a.cell = true) (insideB : e.contains b.cell = true)
    (trace : Trace)
    : crossingsBy a b trace = some (a.crossingsBy b trace) := by
  have width := e.width_le
  have height := e.height_le
  rw [Extent.contains_iff] at inside insideB
  rw [crossingsBy, int32?_of_fits (by constructor <;> omega),
    int32?_of_fits (by constructor <;> omega), mapM_checked? (crossingsBy_fit a b trace)]
  rfl

theorem firstBlocked_eq (t : Terrain) (l : List Point)
    : firstBlocked t l = some (l.find? fun p => !t.walkable p) := by
  induction l with
  | nil => rfl
  | cons p l ih =>
      rw [firstBlocked, walkable_eq, List.find?_cons, Option.bind_eq_bind, Option.bind_some, ih]
      cases t.walkable p <;> rfl

/-- Looking for an obstacle between any two positions stays within the words. -/
theorem obstacleBy_eq (t : Terrain) (a b : Position) (trace : Trace)
    : obstacleBy t a b trace = some (t.obstacleBy? a b trace) := by
  rw [obstacleBy, Terrain.obstacleBy?, walkable_eq, walkable_eq]
  cases a.finite with
  | false => rfl
  | true =>
      cases b.finite with
      | false => rfl
      | true =>
          cases freeA : t.walkable a.cell with
          | false => rfl
          | true =>
              cases freeB : t.walkable b.cell with
              | false => rfl
              | true =>
                  have whole := crossingsBy_eq (Terrain.contains_of_walkable freeA)
                    (Terrain.contains_of_walkable freeB) trace
                  simp only [whole]
                  exact firstBlocked_eq t _

theorem obstacle_eq (t : Terrain) (a b : Position) : obstacle t a b = some (t.obstacle? a b) :=
  (obstacle_eq_obstacleBy t a b).trans (obstacleBy_eq t a b (a.trace b))

end Checked

-----------------------------------------------------------------------------------------
-- Obstacles
-----------------------------------------------------------------------------------------

namespace Terrain

variable {t : Terrain} {a b : Position} {trace : Trace}

/-- A line is clear if its ends are finite and all cells of its list are walkable. -/
theorem obstacleBy?_eq_none
    : t.obstacleBy? a b trace = none
      ↔ a.finite = true
        ∧ b.finite = true
        ∧ ∀ p ∈ a.cell :: b.cell :: a.crossingsBy b trace, t.walkable p = true := by
  unfold obstacleBy?
  cases a.finite <;> cases b.finite <;> cases h : t.walkable a.cell <;>
    cases h' : t.walkable b.cell <;> simp [*]

/-- Between finite positions the obstacle is the first cell of the list that is not walkable. -/
theorem obstacleBy?_eq_find? (finite : a.finite = true) (finiteB : b.finite = true)
    : t.obstacleBy? a b trace
      = (a.cell :: b.cell :: a.crossingsBy b trace).find? fun p => !t.walkable p := by
  unfold obstacleBy?
  cases h : t.walkable a.cell <;> cases h' : t.walkable b.cell <;> simp [*]

/-- With fewer obstacles no cell stops being walkable. -/
theorem walkable_of_fewer {e : Extent} {few more : Layer e Bool} {p : Point}
    (fewer : ∀ p, e.contains p = true → few.get p true = true → more.get p true = true)
    (free : (⟨e, more⟩ : Terrain).walkable p = true)
    : (⟨e, few⟩ : Terrain).walkable p = true := by
  have inside : e.contains p = true := contains_of_walkable free
  simp only [walkable, Bool.not_eq_true'] at free ⊢
  exact Bool.eq_false_iff.mpr fun closed => by simp [fewer p inside closed] at free

/-- What can be relied on when a line is looked along, on every terrain and in words: between finite
positions the answer is the first cell that is not walkable among those of the ends and a list of
others, and this cell is blocked if it lies inside; a clear line has walkable ends and stays clear
with fewer obstacles; and nothing ever leaves the words.
-/
structure Reliable (a b : Position) (beside : List Point) (look : Terrain → Option Point)
    (computed : Terrain → Option (Option Point))
    : Prop where
  first : a.finite = true → b.finite = true
    → ∀ t, look t = (a.cell :: b.cell :: beside).find? fun p => !t.walkable p
  real : a.finite = true → b.finite = true
    → ∀ t p, look t = some p → t.extent.contains p = true → t.blocked.get p true = true
  ends : ∀ t, look t = none → t.walkable a.cell = true ∧ t.walkable b.cell = true
  monotone : ∀ (e : Extent) (few more : Layer e Bool),
    (∀ p, e.contains p = true → few.get p true = true → more.get p true = true)
    → look ⟨e, more⟩ = none
    → look ⟨e, few⟩ = none
  words : ∀ t, computed t = some (look t)

theorem reliable_obstacleBy? (a b : Position) (trace : Trace)
    : Reliable a b (a.crossingsBy b trace) (fun t => t.obstacleBy? a b trace)
        (fun t => Checked.obstacleBy t a b trace) where
  first finite finiteB _ := obstacleBy?_eq_find? finite finiteB
  real finite finiteB t p found _ := by
    rw [obstacleBy?_eq_find? finite finiteB] at found
    have closed := List.find?_some found
    simpa only [walkable, Bool.not_not] using closed
  ends t clear := by
    obtain ⟨_, _, free⟩ := obstacleBy?_eq_none.mp clear
    exact ⟨free _ (by simp), free _ (by simp)⟩
  monotone e few more fewer clear := by
    obtain ⟨finite, finiteB, free⟩ := obstacleBy?_eq_none.mp clear
    exact obstacleBy?_eq_none.mpr
      ⟨finite, finiteB, fun p member => walkable_of_fewer fewer (free p member)⟩
  words t := Checked.obstacleBy_eq t a b trace

/-- Looking along the straight line between two positions is reliable, with the cells beside its
crossings for a list that depends on the positions alone; so it is along any other line between
them, of which this is one.
-/
theorem sight_reliable (a b : Position)
    : Reliable a b (a.crossings b) (fun t => t.obstacle? a b) (fun t => Checked.obstacle t a b)
      ∧ (∀ trace, Reliable a b (a.crossingsBy b trace) (fun t => t.obstacleBy? a b trace)
          (fun t => Checked.obstacleBy t a b trace))
      ∧ a.crossings b = a.crossingsBy b (a.trace b)
      ∧ ∀ t : Terrain, t.obstacle? a b = t.obstacleBy? a b (a.trace b) :=
  ⟨reliable_obstacleBy? a b (a.trace b), reliable_obstacleBy? a b,
    a.crossings_eq_crossingsBy b, fun t => t.obstacle?_eq_obstacleBy? a b⟩

/-- A terrain with two obstacles that touch at a corner, between two open cells. -/
def crevice : Terrain where
  extent := ⟨⟨2, 3⟩, by decide, by decide, by decide, by decide⟩
  blocked := ((Layer.fill _ false).set ⟨1, 0⟩ true).set ⟨0, 1⟩ true

/-- The line between the open cells meets one of the obstacles. -/
theorem sight_reliable_crevice
    : (Point.center ⟨0, 0⟩).finite = true
      ∧ (Point.center ⟨1, 1⟩).finite = true
      ∧ crevice.obstacle? (Point.center ⟨0, 0⟩) (Point.center ⟨1, 1⟩) = some ⟨0, 1⟩
      ∧ crevice.blocked.get ⟨0, 1⟩ true = true
      ∧ Checked.obstacle crevice (Point.center ⟨0, 0⟩) (Point.center ⟨1, 1⟩)
        = some (some ⟨0, 1⟩) := by
  have finite : (Point.center ⟨0, 0⟩).finite = true := by decide +kernel
  have finiteB : (Point.center ⟨1, 1⟩).finite = true := by decide +kernel
  have found : crevice.obstacle? (Point.center ⟨0, 0⟩) (Point.center ⟨1, 1⟩) = some ⟨0, 1⟩ := by
    decide +kernel
  obtain ⟨reliable, _⟩ := sight_reliable (Point.center ⟨0, 0⟩) (Point.center ⟨1, 1⟩)
  exact ⟨finite, finiteB, found, reliable.real finite finiteB crevice _ found (by decide),
    (reliable.words crevice).trans (congrArg some found)⟩

end Terrain

end Wayfinding
