import Wayfinding.Bounded
import Wayfinding.Decimal.Digits

/-!
Cells of the plane by their integer coordinates: `x` grows to the east and `y` to the south.
Each operation comes exact and, with a question mark, checked: `none` when a coordinate of the
result does not fit a signed word of 32 bits.
-/

namespace Wayfinding

/-- A cell, `x` columns east and `y` rows south of the origin. -/
structure Point where
  x : Int
  y : Int
deriving DecidableEq, Inhabited

namespace Point

/-- The cell at the origin. -/
def zero : Point :=
  ⟨0, 0⟩

/-- Both coordinates fit a signed word of 32 bits. -/
def Fits (p : Point) : Prop :=
  InInt32 p.x ∧ InInt32 p.y

instance (p : Point) : Decidable p.Fits :=
  inferInstanceAs (Decidable (_ ∧ _))

instance : Add Point :=
  ⟨fun p q => ⟨p.x + q.x, p.y + q.y⟩⟩

instance : Sub Point :=
  ⟨fun p q => ⟨p.x - q.x, p.y - q.y⟩⟩

/-- Both coordinates multiplied by `k`. -/
def scale (p : Point) (k : Int) : Point :=
  ⟨p.x * k, p.y * k⟩

/-- The sign of each coordinate. -/
def signum (p : Point) : Point :=
  ⟨p.x.sign, p.y.sign⟩

/-- The four cells that share an edge with this one, clockwise from north. -/
def neighbors (p : Point) : List Point :=
  [⟨p.x, p.y - 1⟩, ⟨p.x + 1, p.y⟩, ⟨p.x, p.y + 1⟩, ⟨p.x - 1, p.y⟩]

/-- The cell itself while both coordinates fit. -/
def checked? (p : Point) : Option Point :=
  if p.Fits then some p else none

/-- The checked sum of two cells. -/
def add? (p q : Point) : Option Point :=
  (p + q).checked?

/-- The checked difference of two cells. -/
def sub? (p q : Point) : Option Point :=
  (p - q).checked?

/-- The checked multiple of a cell. -/
def scale? (p : Point) (k : Int) : Option Point :=
  (p.scale k).checked?

/-- The four edge neighbours, unless one of them does not fit. -/
def neighbors? (p : Point) : Option (List Point) :=
  p.neighbors.mapM checked?

/-- The cell in writing, such as `(1, -2)`. -/
def text (p : Point) : String :=
  "(" ++ Decimal.ofInt p.x ++ ", " ++ Decimal.ofInt p.y ++ ")"

@[simp] theorem add_x (p q : Point) : (p + q).x = p.x + q.x := rfl

@[simp] theorem add_y (p q : Point) : (p + q).y = p.y + q.y := rfl

@[simp] theorem sub_x (p q : Point) : (p - q).x = p.x - q.x := rfl

@[simp] theorem sub_y (p q : Point) : (p - q).y = p.y - q.y := rfl

@[ext] theorem ext {p q : Point} (hx : p.x = q.x) (hy : p.y = q.y) : p = q := by
  cases p
  cases q
  simp_all

/-- A checked cell is the exact one and fits. -/
theorem checked?_eq_some {p q : Point} : p.checked? = some q ↔ p = q ∧ q.Fits := by
  unfold checked?
  grind

end Point

end Wayfinding
