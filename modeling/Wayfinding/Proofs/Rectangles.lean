import Mathlib.Data.List.Nodup
import Wayfinding.Json.Records
import Wayfinding.Proofs.Bounds

/-! When the cells, the size and the walk of a rectangle agree. They do for all dimensions that are
not negative, and `Rectangle.ofSize` makes no others. A JSON text can bring a negative dimension
along, which nothing refuses: no cell lies in such a rectangle, but its size, counted in unsigned
words, is then not zero unless the other dimension is.
-/

namespace Wayfinding

namespace Rectangle

-----------------------------------------------------------------------------------------
-- The walk from step to step

namespace Cursor

/-- Going on again and again gives these cells one after another and then no more. -/
inductive Yields : Cursor → List Point → Prop
  | done {c : Cursor} (ended : c.advance? = none) : Yields c []
  | next {c c' : Cursor} {p : Point} {cells : List Point}
      (given : c.advance? = some (p, c')) (rest : Yields c' cells)
      : Yields c (p :: cells)

/-- A walk gives the cells with the numbers that are still to come, in this order. -/
theorem yields_remaining (c : Cursor)
    : c.Yields ((List.range' c.next c.remaining).map (cell c.width)) := by
  induction left : c.remaining generalizing c with
  | zero =>
      have ended : ¬ c.next < c.size := by
        rw [remaining] at left
        omega
      exact .done (if_neg ended)
  | succ k ih =>
      have more : c.next < c.size := by
        rw [remaining] at left
        omega
      have rest := ih { c with next := c.next + 1 } (by rw [remaining] at left ⊢; simp only; omega)
      exact .next (if_pos more) rest

/-- A step leads to the next place, which is not beyond the end. -/
theorem next_of_advance? {c c' : Cursor} {p : Point} (given : c.advance? = some (p, c'))
    : c.next < c.size ∧ c' = { c with next := c.next + 1 } := by
  rw [advance?] at given
  split at given
  · rename_i more
    exact ⟨more, (congrArg Prod.snd (Option.some.inj given)).symm⟩
  · cases given

/-- Taking some cells leaves a walk through the others. -/
theorem Yields.take_drop {c : Cursor} {cells : List Point} (yields : c.Yields cells) (n : Nat)
    : (c.take n).1 = cells.take n ∧ (c.take n).2.Yields (cells.drop n) := by
  induction yields generalizing n with
  | done ended => cases n <;> simp [take, ended, Yields.done]
  | next given rest ih =>
      cases n with
      | zero => exact ⟨rfl, .next given rest⟩
      | succ n => simpa [take, given] using ih n

/-- The number of cells that are still to come is known at every place of a walk. -/
theorem Yields.remaining_eq {c : Cursor} {cells : List Point} (yields : c.Yields cells)
    : c.remaining = cells.length := by
  induction yields with
  | @done c ended =>
      have exhausted : ¬ c.next < c.size := by simpa [advance?] using ended
      simp only [remaining, List.length_nil]
      omega
  | next given _ ih =>
      obtain ⟨more, rfl⟩ := next_of_advance? given
      simp only [remaining, List.length_cons] at ih ⊢
      omega

/-- No step of a walk leads beyond its end. -/
theorem next_le_size {c : Cursor} (within : c.next ≤ c.size) (n : Nat)
    : (c.take n).2.next ≤ (c.take n).2.size := by
  induction n generalizing c with
  | zero => exact within
  | succ n ih =>
      rw [take]
      split
      · exact within
      · rename_i given
        obtain ⟨more, rfl⟩ := next_of_advance? given
        exact ih more

end Cursor

-----------------------------------------------------------------------------------------
-- Agreement

/-- Membership, size and walk of the rectangle agree on these cells. The walk through it begins, and
gives exactly the cells that lie in the rectangle, each once; the size is their number, and the
rectangle is empty exactly if no cell lies in it.
-/
structure Comprises (r : Rectangle) (cells : List Point) : Prop where
  walk : ∃ start, r.cursor? = some start ∧ start.Yields cells
  distinct : cells.Nodup
  member (p : Point) : p ∈ cells ↔ r.contains p = true
  size : r.size? = some cells.length
  empty : ∃ empty, r.isEmpty? = some empty ∧ (empty = true ↔ ∀ p, r.contains p = false)

variable {r : Rectangle} {cells : List Point}

theorem word64_cast {n : Int} (nonneg : 0 ≤ n) (fits : InInt32 n) : (word64 n : Int) = n := by
  unfold InInt32 at fits
  unfold word64
  omega

theorem word64_eq_zero {n : Int} (fits : InInt32 n) : word64 n = 0 ↔ n = 0 := by
  unfold InInt32 at fits
  unfold word64
  omega

theorem contains_iff {p : Point}
    : r.contains p = true ↔ 0 ≤ p.x ∧ p.x < r.width ∧ 0 ≤ p.y ∧ p.y < r.height := by
  simp [contains]

/-- No cell lies in a rectangle one of whose dimensions is not positive. -/
theorem contains_eq_false (flat : r.width ≤ 0 ∨ r.height ≤ 0) (p : Point)
    : r.contains p = false := by
  rw [Bool.eq_false_iff, Ne, contains_iff]
  omega

/-- The walk through a rectangle of a known size gives the cells with the numbers below it. -/
theorem exists_cursor?_yields {n : Nat} (size : r.size? = some n)
    : ∃ start,
        r.cursor? = some start
        ∧ start.Yields ((List.range n).map (Cursor.cell r.width)) := by
  refine ⟨⟨r.width, 0, n⟩, by rw [cursor?, size, Option.map_some], ?_⟩
  rw [List.range_eq_range']
  exact Cursor.yields_remaining ⟨r.width, 0, n⟩

/-- All that is needed for agreement: the size, and what the walk meets. -/
theorem comprises_of_size {n : Nat} (size : r.size? = some n)
    (distinct : ((List.range n).map (Cursor.cell r.width)).Nodup)
    (member : ∀ p, p ∈ (List.range n).map (Cursor.cell r.width) ↔ r.contains p = true)
    : r.Comprises ((List.range n).map (Cursor.cell r.width)) := by
  refine ⟨exists_cursor?_yields size, distinct, member, by simpa using size,
    n == 0, by rw [isEmpty?, size, Option.map_some], ?_⟩
  constructor
  · intro none p
    rw [beq_iff_eq.mp none] at member
    rw [Bool.eq_false_iff, Ne, ← member p]
    exact List.not_mem_nil
  · intro outside
    cases n with
    | zero => rfl
    | succ n =>
        have first := (member _).mp (List.mem_map_of_mem (List.mem_range.mpr n.succ_pos))
        rw [outside] at first
        cases first

end Rectangle

namespace Extent

variable (e : Extent)

theorem inInt32_width : InInt32 e.width :=
  ⟨by have := e.width_pos; omega, e.width_le⟩

theorem inInt32_height : InInt32 e.height :=
  ⟨by have := e.height_pos; omega, e.height_le⟩

/-- The number of cells of an extent fits a word of 64 bits. -/
theorem size?_eq : e.toRectangle.size? = some e.area := by
  have width := Rectangle.word64_cast (Int.le_of_lt e.width_pos) e.inInt32_width
  have height := Rectangle.word64_cast (Int.le_of_lt e.height_pos) e.inInt32_height
  have product : Rectangle.word64 e.width * Rectangle.word64 e.height = e.area := by
    rw [← Int.ofNat_inj, e.area_cast, Int.natCast_mul, width, height]
  have bound : Rectangle.word64 e.width * Rectangle.word64 e.height
      ≤ 2147483647 * 2147483647 :=
    Nat.mul_le_mul (by have := e.width_le; omega) (by have := e.height_le; omega)
  rw [Rectangle.size?, product]
  exact word64?_eq_some.mpr ⟨rfl, by omega⟩

variable {e}

/-- The walk's cell with a number is that of the extent: nothing wraps around. -/
theorem cell_eq {i : Nat} (h : i < e.area) : Rectangle.Cursor.cell e.width i = e.point i := by
  have width := Rectangle.word64_cast (Int.le_of_lt e.width_pos) e.inInt32_width
  obtain ⟨x_nonneg, x_lt, y_nonneg, y_lt⟩ := contains_iff.mp (contains_point h)
  have right := e.width_le
  have below := e.height_le
  simp only [point] at x_nonneg x_lt y_nonneg y_lt
  simp only [Rectangle.Cursor.cell, point, Int.natCast_emod, Int.natCast_ediv, width]
  rw [wrapInt32_of_fits ⟨by omega, by omega⟩, wrapInt32_of_fits ⟨by omega, by omega⟩]

theorem map_cell_eq : (List.range e.area).map (Rectangle.Cursor.cell e.width) = e.points :=
  List.map_congr_left fun _ h => cell_eq (List.mem_range.mp h)

theorem nodup_points : e.points.Nodup := by
  refine List.nodup_range.map_on fun i hi j hj same => ?_
  rw [← index_point (List.mem_range.mp hi), same, index_point (List.mem_range.mp hj)]

/-- An extent comprises its cells, row by row. -/
theorem comprises_points (e : Extent) : e.toRectangle.Comprises e.points := by
  have agreed := Rectangle.comprises_of_size e.size?_eq
  rw [map_cell_eq] at agreed
  exact agreed nodup_points fun _ => mem_points

end Extent

namespace Rectangle

variable {r : Rectangle}

/-- A rectangle with a dimension of zero comprises no cells. -/
theorem comprises_nil (flat : r.width = 0 ∨ r.height = 0) : r.Comprises [] := by
  have size : r.size? = some 0 := by
    rw [size?]
    rcases flat with zero | zero <;> simp [zero, word64, word64?]
  refine comprises_of_size size List.nodup_nil fun p => ?_
  rw [contains_eq_false (by omega)]
  simp

/-- Membership, size and walk agree exactly if no dimension is negative, or one is zero. -/
theorem exists_comprises_iff (width : InInt32 r.width) (height : InInt32 r.height)
    : (∃ cells, r.Comprises cells)
      ↔ 0 ≤ r.width ∧ 0 ≤ r.height ∨ r.width = 0 ∨ r.height = 0 := by
  constructor
  · rintro ⟨cells, agreed⟩
    rw [← word64_eq_zero width, ← word64_eq_zero height, ← Nat.mul_eq_zero]
    refine or_iff_not_imp_left.mpr fun negative => ?_
    -- No cell lies in the rectangle, so the walk meets none and the size can only be zero.
    have none : cells = [] := List.eq_nil_iff_forall_not_mem.mpr fun p hp => by
      have inside := (agreed.member p).mp hp
      rw [contains_eq_false (by omega)] at inside
      cases inside
    have size := agreed.size
    rw [none, List.length_nil] at size
    exact (word64?_eq_some.mp size).1
  · intro dimensions
    by_cases flat : r.width = 0 ∨ r.height = 0
    · exact ⟨[], comprises_nil flat⟩
    · have positive : 0 < r.width ∧ 0 < r.height := by omega
      let e : Extent := ⟨r, positive.1, positive.2, width.2, height.2⟩
      exact ⟨e.points, e.comprises_points⟩

-----------------------------------------------------------------------------------------
-- How rectangles come about

/-- Membership, size and walk agree on every rectangle that is made with a size. -/
theorem exists_comprises_ofSize {width height : Int} (hw : InInt32 width) (hh : InInt32 height)
    : ∃ cells, (ofSize width height).Comprises cells := by
  have nonneg : 0 ≤ (ofSize width height).width ∧ 0 ≤ (ofSize width height).height :=
    ⟨Int.le_max_right .., Int.le_max_right ..⟩
  refine (exists_comprises_iff ⟨?_, ?_⟩ ⟨?_, ?_⟩).mpr (.inl nonneg)
  · exact Int.le_trans (by decide) nonneg.1
  · exact Int.max_le.mpr ⟨hw.2, by decide⟩
  · exact Int.le_trans (by decide) nonneg.2
  · exact Int.max_le.mpr ⟨hh.2, by decide⟩

/-- An integer that is read for a field fits a signed word of 32 bits. -/
theorem inInt32_of_required? {field : Option Json.Value} {n : Int}
    (read : Json.required? Json.int32Value? field = some n)
    : InInt32 n := by
  rcases field with _ | (_ | _ | number | _ | _ | _) <;> try cases read
  simp only [Json.required?, Json.int32Value?, Json.Number.toInt32?] at read
  split at read
  · exact (int32?_eq_some.mp read).2
  · cases read

/-- The dimensions of a rectangle that is read fit, and nothing more is known about them. -/
theorem inInt32_of_ofJson? {v : Json.Value} (read : ofJson? v = some r)
    : InInt32 r.width ∧ InInt32 r.height := by
  rw [ofJson?] at read
  split at read
  · simp only [Option.bind_eq_bind, Option.bind_eq_some_iff, Option.pure_def,
      Option.some.injEq] at read
    obtain ⟨width, hw, height, hh, rfl⟩ := read
    exact ⟨inInt32_of_required? hw, inInt32_of_required? hh⟩
  · cases read

theorem inInt32_of_readWhole? {text : String} (read : Json.readWhole? ofJson? text = some r)
    : InInt32 r.width ∧ InInt32 r.height := by
  rw [Json.readWhole?] at read
  split at read
  · cases read
  · split at read
    · exact inInt32_of_ofJson? read
    · cases read

/-- Membership, size and walk agree on every rectangle that is made with a size. On a rectangle
that is read from a JSON text they agree exactly if no dimension is negative, or one is zero.
-/
theorem agreement {width height : Int} (hw : InInt32 width) (hh : InInt32 height) (text : String)
    : (∃ cells, (ofSize width height).Comprises cells)
      ∧ ∀ r,
          Json.readWhole? ofJson? text = some r
          → ((∃ cells, r.Comprises cells)
              ↔ 0 ≤ r.width ∧ 0 ≤ r.height ∨ r.width = 0 ∨ r.height = 0) := by
  refine ⟨exists_comprises_ofSize hw hh, fun r read => ?_⟩
  have fits := inInt32_of_readWhole? read
  exact exists_comprises_iff fits.1 fits.2

/-- The text of a rectangle with two rows of three cells. -/
def brick : String :=
  "\x7b\"width\":3,\"height\":2\x7d"

theorem agreement_brick
    : InInt32 4
      ∧ InInt32 (-2)
      ∧ (∃ cells, (ofSize 4 (-2)).Comprises cells)
      ∧ ∃ r, Json.readWhole? ofJson? brick = some r ∧ ∃ cells, r.Comprises cells := by
  have width : InInt32 4 := by decide
  have height : InInt32 (-2) := by decide
  have read : Json.readWhole? ofJson? brick = some ⟨3, 2⟩ := by decide +kernel
  obtain ⟨made, found⟩ := agreement width height brick
  exact ⟨width, height, made, ⟨3, 2⟩, read, (found ⟨3, 2⟩ read).mpr (.inl (by decide))⟩

/-- The text of a rectangle with a negative width. -/
def inverted : String :=
  "\x7b\"width\":-1,\"height\":1\x7d"

/-- The text is accepted, but membership, size and walk of the rectangle do not agree: no cell lies
in it, and yet it counts as not empty.
-/
theorem not_comprises_inverted
    : ∃ r,
        Json.readWhole? ofJson? inverted = some r
        ∧ (∀ p, r.contains p = false)
        ∧ r.size? = some 18446744073709551615
        ∧ r.isEmpty? = some false
        ∧ ¬ ∃ cells, r.Comprises cells := by
  refine ⟨⟨-1, 1⟩, by decide +kernel, contains_eq_false (.inl (by decide)), by decide,
    by decide, ?_⟩
  rw [exists_comprises_iff (by decide) (by decide)]
  decide

end Rectangle

end Wayfinding
