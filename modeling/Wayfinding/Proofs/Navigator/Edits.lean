import Wayfinding.Navigator.Query
import Wayfinding.Proofs.Checked.Jumps

/-! Edits of the obstacles of a map. An edit looks up the places of all cells that it names before
it writes the first of them. So the map that it leaves when it is refused is the one that it found,
and no place that it writes lies beyond the end of a layer.
-/

namespace Wayfinding

namespace Rectangle

/-- The first listed cell outside a rectangle, if there is one. -/
def firstOutside? (r : Rectangle) (cells : List Point) : Option Point :=
  cells.find? fun p => !r.contains p

variable {r : Rectangle} {p : Point} {cells : List Point}

theorem firstOutside?_eq_none
    : r.firstOutside? cells = none ↔ ∀ p ∈ cells, r.contains p = true := by
  simp [firstOutside?]

theorem firstOutside?_cons_of_contains (inside : r.contains p = true)
    : r.firstOutside? (p :: cells) = r.firstOutside? cells :=
  List.find?_cons_of_neg (by simp [inside])

theorem firstOutside?_cons_of_outside (outside : r.contains p = false)
    : r.firstOutside? (p :: cells) = some p :=
  List.find?_cons_of_pos (by simp [outside])

end Rectangle

open Rectangle

/-- Listed cells are refused because of the first one outside, by induction over them. -/
theorem GridMap.forM_checkInside_eq (m : GridMap) (cells : List Point)
    : cells.forM m.checkInside
      = (m.extent.firstOutside? cells).elim (.ok ()) (.error ∘ .outOfBounds) := by
  induction cells with
  | nil => rfl
  | cons p cells ih =>
      rw [List.forM, checkInside]
      cases inside : m.extent.contains p with
      | false =>
          rw [firstOutside?_cons_of_outside inside]
          rfl
      | true =>
          rw [firstOutside?_cons_of_contains inside]
          exact ih

namespace Navigator

-----------------------------------------------------------------------------------------
-- Places
-----------------------------------------------------------------------------------------

theorem checkPlace_of_contains {n : Navigator} {p : Point} (inside : n.extent.contains p = true)
    : n.checkPlace p = some (.ok (n.extent.index p)) := by
  simp [checkPlace, Checked.place_eq, Checked.index?_of_contains inside]

theorem checkPlace_outside {n : Navigator} {p : Point} (outside : n.extent.contains p = false)
    : n.checkPlace p = some (.error (.outOfBounds p)) := by
  simp [checkPlace, Checked.place_eq, Extent.index?, outside]

/-- The places of listed cells are known unless one lies outside, by induction over the cells. -/
theorem checkPlaces_eq (n : Navigator) (cells : List Point)
    : n.checkPlaces cells
      = some ((n.extent.firstOutside? cells).elim (.ok (cells.map n.extent.index))
          (.error ∘ .outOfBounds)) := by
  induction cells with
  | nil => rfl
  | cons p cells ih =>
      rw [checkPlaces]
      cases inside : n.extent.contains p with
      | false =>
          rw [checkPlace_outside inside, firstOutside?_cons_of_outside inside]
          rfl
      | true =>
          rw [checkPlace_of_contains inside, firstOutside?_cons_of_contains inside]
          simp only [Option.bind_eq_bind, Option.bind_some, ih]
          cases n.extent.firstOutside? cells <;> rfl

theorem put_index {n : Navigator} {p : Point} (inside : n.extent.contains p = true) (value : Bool)
    : n.put value (n.extent.index p) = some { n with blocked := n.blocked.set p value } := by
  simp [put, Checked.put_index n.blocked inside value]

/-- The places of cells inside can all be written, by induction over the cells. -/
theorem foldlM_put {cells : List Point} (n : Navigator)
    (inside : ∀ p ∈ cells, n.extent.contains p = true)
    : (cells.map n.extent.index).foldlM (fun n i => n.put true i) n
      = some { n with blocked := cells.foldl (fun l p => l.set p true) n.blocked } := by
  induction cells generalizing n with
  | nil => rfl
  | cons p cells ih =>
      obtain ⟨here, others⟩ := List.forall_mem_cons.mp inside
      rw [List.map_cons, List.foldlM_cons, put_index here]
      exact ih { n with blocked := n.blocked.set p true } others

theorem setBlocked_eq (n : Navigator) (value : Bool) (p : Point)
    : n.setBlocked value p
      = some ((n.extent.firstOutside? [p]).elim
          (.ok (), { n with blocked := n.blocked.set p value })
          fun p => (.error (.outOfBounds p), n)) := by
  rw [setBlocked]
  cases inside : n.extent.contains p with
  | false =>
      rw [checkPlace_outside inside, firstOutside?_cons_of_outside inside]
      rfl
  | true =>
      rw [checkPlace_of_contains inside, firstOutside?_cons_of_contains inside]
      simp only [Option.bind_eq_bind, Option.bind_some, put_index inside]
      rfl

-----------------------------------------------------------------------------------------
-- Edits
-----------------------------------------------------------------------------------------

/-- An edit of the obstacles. -/
inductive Edit where
  | block (p : Point)
  | clear (p : Point)
  | blockAll (cells : List Point)
  | clearAll

namespace Edit

/-- The edit as a request. -/
def request : Edit → Request
  | .block p => .block p
  | .clear p => .clear p
  | .blockAll cells => .blockAll cells
  | .clearAll => .clearAll

/-- The cells that an edit names, in their order. -/
def cells : Edit → List Point
  | .block p | .clear p => [p]
  | .blockAll cells => cells
  | .clearAll => []

/-- What an edit makes of the blocked cells. -/
def onLayer {e : Extent} (l : Layer e Bool) : Edit → Layer e Bool
  | .block p => l.set p true
  | .clear p => l.set p false
  | .blockAll cells => cells.foldl (fun l p => l.set p true) l
  | .clearAll => l.refill false

/-- The outcome of an edit and the map afterwards. -/
def apply (n : Navigator) : Edit → Option (Except MapFault Unit × Navigator)
  | .block p => n.block p
  | .clear p => n.clear p
  | .blockAll cells => n.blockAll cells
  | .clearAll => some (.ok (), n.clearAll)

/-- The outcome of an edit of a map without buffers and that map afterwards. -/
def onMap (m : GridMap) : Edit → Except MapFault Unit × GridMap
  | .block p => m.block p
  | .clear p => m.clear p
  | .blockAll cells => m.blockAll cells
  | .clearAll => (.ok (), m.clearAll)

/-- A request for an edit leaves the map that the edit leaves. -/
theorem perform_request (n : Navigator) (edit : Edit)
    : n.perform edit.request = (edit.apply n).map Prod.snd := by
  cases edit <;> rfl

/-- An edit is refused because of the first cell outside that it names, and leaves the map as it
was; any other changes nothing but the blocked cells.
-/
theorem apply_eq (n : Navigator) (edit : Edit)
    : edit.apply n
      = some ((n.extent.firstOutside? edit.cells).elim
          (.ok (), { n with blocked := edit.onLayer n.blocked })
          fun p => (.error (.outOfBounds p), n)) := by
  cases edit with
  | block p => exact setBlocked_eq n true p
  | clear p => exact setBlocked_eq n false p
  | blockAll cells =>
      rw [apply, Navigator.blockAll, checkPlaces_eq]
      change _ = some ((n.extent.firstOutside? cells).elim _ _)
      cases first : n.extent.firstOutside? cells with
      | none =>
          have inside := Rectangle.firstOutside?_eq_none.mp first
          simp [foldlM_put n inside, onLayer]
      | some p => rfl
  | clearAll => rfl

/-- Without buffers an edit does the same. -/
theorem onMap_eq (m : GridMap) (edit : Edit)
    : edit.onMap m
      = (m.extent.firstOutside? edit.cells).elim
          (.ok (), { m with blocked := edit.onLayer m.blocked })
          fun p => (.error (.outOfBounds p), m) := by
  cases edit with
  | block p | clear p =>
      simp only [onMap, GridMap.block, GridMap.clear, GridMap.setBlocked, cells, onLayer]
      cases inside : m.extent.contains p with
      | false =>
          rw [firstOutside?_cons_of_outside inside, GridMap.checkInside, inside]
          rfl
      | true =>
          rw [firstOutside?_cons_of_contains inside, GridMap.checkInside, inside]
          rfl
  | blockAll cells =>
      rw [onMap, GridMap.blockAll, GridMap.forM_checkInside_eq]
      change _ = (m.extent.firstOutside? cells).elim _ _
      cases m.extent.firstOutside? cells <;> rfl
  | clearAll =>
      rw [onMap, GridMap.clearAll, onLayer, Layer.refill_eq_fill]
      rfl

/-- An edit leaves the same map with buffers as without. -/
theorem map_apply (n : Navigator) (edit : Edit)
    : (edit.apply n).map (Prod.map id toGridMap) = some (edit.onMap n.toGridMap) := by
  rw [apply_eq, onMap_eq]
  cases n.extent.firstOutside? edit.cells <;> rfl

end Edit

end Navigator

end Wayfinding
