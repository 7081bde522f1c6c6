import Wayfinding.Point

/-!
The cells of a `width × height` rectangle at the origin, and the walk through them row by row.
Sizes count in unsigned words of 64 bits: a negative dimension, which `ofSize` never makes,
counts as the word with the same bits.
-/

namespace Wayfinding

/-- The rectangle of the cells from the origin up to `width` and `height`. -/
structure Rectangle where
  width : Int
  height : Int
deriving DecidableEq

namespace Rectangle

/-- The rectangle of this size; a negative dimension counts as zero. -/
def ofSize (width height : Int) : Rectangle :=
  ⟨max width 0, max height 0⟩

/-- The cell lies in the rectangle. -/
def contains (r : Rectangle) (p : Point) : Bool :=
  decide (0 ≤ p.x ∧ p.x < r.width ∧ 0 ≤ p.y ∧ p.y < r.height)

/-- The unsigned word of 64 bits with the same bits as an integer. -/
def word64 (n : Int) : Nat :=
  (n % 18446744073709551616).toNat

/-- The number of cells, unless it does not fit an unsigned word of 64 bits. -/
def size? (r : Rectangle) : Option Nat :=
  word64? (word64 r.width * word64 r.height)

/-- Whether there are no cells, where their number fits. -/
def isEmpty? (r : Rectangle) : Option Bool :=
  r.size?.map (· == 0)

/-- The rectangle in writing, such as `4x3`. -/
def text (r : Rectangle) : String :=
  Decimal.ofInt r.width ++ "x" ++ Decimal.ofInt r.height

/-- A place in the walk through a rectangle's cells: the next cell's number and the number of the
cells altogether.
-/
structure Cursor where
  width : Int
  next : Nat
  size : Nat

/-- The start of the walk, where the number of cells fits. -/
def cursor? (r : Rectangle) : Option Cursor :=
  r.size?.map fun n => ⟨r.width, 0, n⟩

/-- The cell with a number in the walk of a rectangle of this width. -/
def Cursor.cell (width : Int) (i : Nat) : Point :=
  ⟨wrapInt32 (i % word64 width : Nat), wrapInt32 (i / word64 width : Nat)⟩

/-- The next cell and the place after it, unless the walk is over. -/
def Cursor.advance? (c : Cursor) : Option (Point × Cursor) :=
  if c.next < c.size then some (cell c.width c.next, { c with next := c.next + 1 }) else none

/-- How many cells are still to come. -/
def Cursor.remaining (c : Cursor) : Nat :=
  c.size - c.next

/-- The next `n` cells, or all that are left, and the place after them. -/
def Cursor.take (c : Cursor) : Nat → List Point × Cursor
  | 0 => ([], c)
  | n + 1 =>
      match c.advance? with
      | none => ([], c)
      | some (p, c') =>
          let (ps, last) := c'.take n
          (p :: ps, last)

end Rectangle

end Wayfinding
