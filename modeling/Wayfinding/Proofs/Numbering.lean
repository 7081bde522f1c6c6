import Wayfinding.GridMap.Basic
import Wayfinding.Proofs.Checked.Jumps
import Wayfinding.Proofs.Rectangles

/-! The numbers of cells. In an extent of any size the cells and the numbers below their count
belong to each other one by one, and the walk through the extent meets the cells in the order of
their numbers. All this is computed in words of 32 and 64 bits, which hold every result on the way.
-/

namespace Wayfinding

namespace Rectangle

/-- The walk goes through these cells. However many steps were taken, the cells that were met are
the first of them, the others are still to come and their number is known, and the walk has not gone
beyond its end.
-/
structure Cursor.Traverses (start : Cursor) (cells : List Point) : Prop where
  met (k : Nat) : (start.take k).1 = cells.take k
  ahead (k : Nat) : (start.take k).2.Yields (cells.drop k)
  remaining (k : Nat) : (start.take k).2.remaining = (cells.drop k).length
  within (k : Nat) : (start.take k).2.next ≤ (start.take k).2.size

theorem Cursor.Yields.traverses {start : Cursor} {cells : List Point} (yields : start.Yields cells)
    (within : start.next ≤ start.size)
    : start.Traverses cells where
  met k := (yields.take_drop k).1
  ahead k := (yields.take_drop k).2
  remaining k := (yields.take_drop k).2.remaining_eq
  within k := next_le_size within k

end Rectangle

namespace Extent

/-- The cells of an extent are numbered. The words in which numbers and cells are computed hold
them as they are. Every cell inside has a number below the count of the cells and is found again by
it, every such number is that of the cell that it finds, and a cell outside has no number. The walk
through the extent goes through the cells in the order of their numbers.
-/
structure Numbering (e : Extent) : Prop where
  area : (e.area : Int) = e.width * e.height
  place (p : Point) : Checked.place e p = some (e.index? p)
  cellAt (i : Nat) (low : i < e.area) : Checked.cellAt e i = some (e.point i)
  inside (p : Point) (member : e.toRectangle.contains p = true)
    : ∃ i, i < e.area ∧ e.index? p = some i ∧ e.point i = p
  below (i : Nat) (low : i < e.area)
    : e.toRectangle.contains (e.point i) = true ∧ e.index? (e.point i) = some i
  outside (p : Point) (beyond : e.toRectangle.contains p = false) : e.index? p = none
  walk
    : ∃ start,
        e.toRectangle.cursor? = some start
        ∧ start.Traverses ((List.range e.area).map e.point)

/-- Nothing is lost of the coordinates of a cell. -/
theorem cellAt_eq {e : Extent} {i : Nat} (low : i < e.area)
    : Checked.cellAt e i = some (e.point i) := by
  have width := Rectangle.word64_cast (Int.le_of_lt e.width_pos) e.inInt32_width
  have columns : e.width.toNat = Rectangle.word64 e.width := by omega
  have positive : Rectangle.word64 e.width ≠ 0 := by
    have := e.width_pos
    omega
  simp only [Checked.cellAt, columns, if_neg positive]
  rw [← cell_eq low, Rectangle.Cursor.cell]

theorem numbering (e : Extent) : e.Numbering where
  area := e.area_cast
  place p := Checked.place_eq e p
  cellAt _ low := cellAt_eq low
  inside p member := ⟨e.index p, index_lt member, if_pos member, point_index member⟩
  below i low := by
    have member := contains_point low
    exact ⟨member, by rw [index?, if_pos member, index_point low]⟩
  outside p beyond := by
    rw [index?, contains, beyond]
    rfl
  walk := by
    obtain ⟨start, begun, yields⟩ := Rectangle.exists_cursor?_yields e.size?_eq
    rw [map_cell_eq] at yields
    refine ⟨start, begun, yields.traverses ?_⟩
    rw [Rectangle.cursor?, e.size?_eq, Option.map_some] at begun
    cases begun
    exact Nat.zero_le _

end Extent

/-- There are maps of every positive size, and in every map the cells are numbered. -/
theorem GridMap.cells_numbered {width height : Int} (hw : 0 < width) (hh : 0 < height)
    (fitsWidth : InInt32 width) (fitsHeight : InInt32 height) (settings : Settings)
    : (∃ m, create width height settings = .ok m ∧ m.extent.toRectangle = ⟨width, height⟩)
      ∧ ∀ m : GridMap, m.extent.toRectangle = ⟨width, height⟩ → m.extent.Numbering := by
  constructor
  · have size : Extent.ofSize? width height
        = some ⟨⟨width, height⟩, hw, hh, fitsWidth.2, fitsHeight.2⟩ :=
      dif_pos ⟨hw, hh, fitsWidth.2, fitsHeight.2⟩
    rw [create, size]
    exact ⟨_, rfl, rfl⟩
  · exact fun m _ => m.extent.numbering

/-- The greatest map has more cells than a word of 32 bits counts. -/
theorem GridMap.cells_numbered_greatest
    : 0 < (2147483647 : Int)
      ∧ InInt32 2147483647
      ∧ ∃ m,
          create 2147483647 2147483647 {} = .ok m
          ∧ m.extent.Numbering
          ∧ m.extent.index? ⟨2147483646, 2147483646⟩ = some 4611686014132420608 := by
  have positive : 0 < (2147483647 : Int) := by decide
  have fits : InInt32 2147483647 := by decide
  obtain ⟨⟨m, created, size⟩, numbering⟩ := cells_numbered positive positive fits fits {}
  refine ⟨positive, fits, m, created, numbering m size, ?_⟩
  have last : m.extent.contains ⟨2147483646, 2147483646⟩ = true := by
    rw [Extent.contains, size]
    decide
  rw [Extent.index?, if_pos last, Extent.index, size]
  rfl

end Wayfinding
