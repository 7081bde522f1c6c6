import Wayfinding.Rectangle

/-!
The size of a map. Its cells are numbered row by row from the origin: `index` and `point` turn
cells into numbers below `area` and back, and `point_index` and `index_point` say that they are
inverse to each other.
-/

namespace Wayfinding

/-- A rectangle with at least one cell, whose coordinates all fit. -/
structure Extent extends Rectangle where
  width_pos : 0 < width
  height_pos : 0 < height
  width_le : width ≤ 2147483647
  height_le : height ≤ 2147483647
deriving DecidableEq

namespace Extent

/-- The extent of this size, if there is one. -/
def ofSize? (width height : Int) : Option Extent :=
  if h : 0 < width ∧ 0 < height ∧ width ≤ 2147483647 ∧ height ≤ 2147483647 then
    some ⟨⟨width, height⟩, h.1, h.2.1, h.2.2.1, h.2.2.2⟩
  else none

/-- The cell lies in the extent. -/
def contains (e : Extent) (p : Point) : Bool :=
  e.toRectangle.contains p

/-- The number of cells. -/
def area (e : Extent) : Nat :=
  (e.width * e.height).toNat

/-- The number of a cell of the extent, row by row. -/
def index (e : Extent) (p : Point) : Nat :=
  (p.y * e.width + p.x).toNat

/-- The number of a cell, if the cell lies in the extent. -/
def index? (e : Extent) (p : Point) : Option Nat :=
  if e.contains p then some (e.index p) else none

/-- The cell with a number. -/
def point (e : Extent) (i : Nat) : Point :=
  ⟨i % e.width, i / e.width⟩

/-- All cells, row by row. -/
def points (e : Extent) : List Point :=
  (List.range e.area).map e.point

/-- No straight or diagonal run inside the extent is longer than its longer side. -/
def side (e : Extent) : Nat :=
  (max e.width e.height).toNat

variable {e : Extent} {p : Point}

theorem contains_iff
    : e.contains p = true ↔ 0 ≤ p.x ∧ p.x < e.width ∧ 0 ≤ p.y ∧ p.y < e.height := by
  simp [contains, Rectangle.contains]

/-- A row before the last and all rows before it leave room for a whole row. -/
theorem row_le (h : e.contains p = true) : p.y * e.width + e.width ≤ e.width * e.height := by
  obtain ⟨_, _, _, hy⟩ := contains_iff.mp h
  have := Int.mul_le_mul_of_nonneg_right (show p.y + 1 ≤ e.height by omega)
    (show 0 ≤ e.width by have := e.width_pos; omega)
  rw [Int.add_mul, Int.one_mul, Int.mul_comm e.height] at this
  exact this

/-- A cell of the extent has a number that is not negative. -/
theorem index_cast (h : e.contains p = true) : (e.index p : Int) = p.y * e.width + p.x := by
  obtain ⟨hx, _, hy, _⟩ := contains_iff.mp h
  have := Int.mul_nonneg hy (show 0 ≤ e.width by have := e.width_pos; omega)
  simp only [index]
  omega

/-- The number of a cell of the extent is below the number of cells. -/
theorem index_lt (h : e.contains p = true) : e.index p < e.area := by
  have hi := index_cast h
  have hr := row_le h
  obtain ⟨_, hx, _, _⟩ := contains_iff.mp h
  simp only [area]
  omega

/-- Every cell of the extent is found again by its number. -/
theorem point_index (h : e.contains p = true) : e.point (e.index p) = p := by
  obtain ⟨hx, hw, _, _⟩ := contains_iff.mp h
  have hi := index_cast h
  apply Point.ext
  · simp only [point, hi]
    rw [Int.add_comm, Int.add_mul_emod_self_right, Int.emod_eq_of_lt hx hw]
  · simp only [point, hi]
    rw [Int.add_comm, Int.add_mul_ediv_right _ _ (by omega), Int.ediv_eq_zero_of_lt hx hw,
      Int.zero_add]

/-- The cell with a number below the number of cells lies in the extent. -/
theorem contains_point {i : Nat} (h : i < e.area) : e.contains (e.point i) = true := by
  have hw := e.width_pos
  have hh := e.height_pos
  have hi : (i : Int) < e.height * e.width := by
    rw [Int.mul_comm]
    simp only [area] at h
    omega
  refine contains_iff.mpr ⟨Int.emod_nonneg _ (by omega), Int.emod_lt_of_pos _ hw, ?_, ?_⟩
  · exact Int.ediv_nonneg (by omega) (by omega)
  · exact Int.ediv_lt_of_lt_mul hw hi

/-- Every number below the number of cells is found again by its cell. -/
theorem index_point {i : Nat} (h : i < e.area) : e.index (e.point i) = i := by
  have hc := index_cast (contains_point h)
  simp only [point] at hc
  rw [Int.mul_comm, Int.mul_ediv_add_emod] at hc
  exact Int.ofNat_inj.mp hc

/-- Cells of the extent with the same number are the same. -/
theorem index_inj {q : Point} (hp : e.contains p = true) (hq : e.contains q = true)
    (h : e.index p = e.index q) : p = q := by
  rw [← point_index hp, h, point_index hq]

/-- The walk through the cells meets exactly those of the extent. -/
theorem mem_points : p ∈ e.points ↔ e.contains p = true := by
  constructor
  · intro h
    obtain ⟨i, hi, rfl⟩ := List.mem_map.mp h
    exact contains_point (List.mem_range.mp hi)
  · intro h
    exact List.mem_map.mpr ⟨e.index p, List.mem_range.mpr (index_lt h), point_index h⟩

end Extent

end Wayfinding
