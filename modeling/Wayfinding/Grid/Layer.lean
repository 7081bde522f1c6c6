import Wayfinding.Grid.Extent

/-!
One value for every cell of an extent. Reading needs a value for the cells outside; writing
outside changes nothing. `get_set` is the one law that connects them.
-/

namespace Wayfinding

/-- A value for every cell of an extent, row by row. -/
structure Layer (e : Extent) (α : Type u) where
  cells : Vector α e.area
deriving DecidableEq

namespace Layer

variable {e : Extent} {α : Type u}

/-- The layer with the same value everywhere. -/
def fill (e : Extent) (v : α) : Layer e α :=
  ⟨Vector.replicate e.area v⟩

/-- The layer with its values all overwritten by one. -/
def refill (l : Layer e α) (v : α) : Layer e α :=
  ⟨l.cells.map fun _ => v⟩

/-- The value of a cell, and `outside` for a cell outside the extent. -/
def get (l : Layer e α) (p : Point) (outside : α) : α :=
  if h : e.contains p = true then
    have bound := Extent.index_lt h
    l.cells[e.index p]
  else outside

/-- The layer with another value for one cell. -/
def set (l : Layer e α) (p : Point) (v : α) : Layer e α :=
  if h : e.contains p = true then ⟨l.cells.set (e.index p) v (Extent.index_lt h)⟩ else l

/-- Only the written cell changes, and only inside the extent. -/
theorem get_set (l : Layer e α) (p q : Point) (v outside : α)
    : (l.set p v).get q outside
      = if p = q ∧ e.contains q = true then v else l.get q outside := by
  unfold set get
  by_cases hq : e.contains q = true
  · by_cases hp : e.contains p = true
    · by_cases hpq : p = q
      · subst hpq
        simp [hp]
      · have : e.index p ≠ e.index q := fun h => hpq (Extent.index_inj hp hq h)
        simp [hp, hq, hpq, Vector.getElem_set_ne _ _ this]
    · have hpq : p ≠ q := fun h => hp (h ▸ hq)
      simp [hp, hq, hpq]
  · by_cases hp : e.contains p = true <;> simp [hq]

/-- A layer filled with one value has it in every cell. -/
theorem get_fill (v outside : α) (p : Point)
    : (fill e v).get p outside = if e.contains p = true then v else outside := by
  unfold fill get
  split <;> simp

/-- Nothing is left of the values before. -/
theorem refill_eq_fill (l : Layer e α) (v : α) : l.refill v = fill e v := by
  rw [refill, fill]
  congr 1
  apply Vector.ext
  simp

/-- Layers that agree in every cell are equal. -/
theorem ext_get {l m : Layer e α} (outside : α)
    (h : ∀ p, e.contains p = true → l.get p outside = m.get p outside) : l = m := by
  cases l with
  | mk a =>
    cases m with
    | mk b =>
      congr 1
      apply Vector.ext
      intro i hi
      have hc := Extent.contains_point hi
      have := h (e.point i) hc
      simpa [get, hc, Extent.index_point hi] using this

end Layer

end Wayfinding
