import Mathlib.Data.Finset.Basic
import Mathlib.Data.Finset.Lattice.Lemmas
import Mathlib.Data.Finset.Dedup
import Wayfinding.Proofs.Navigator.Requests
import Wayfinding.Proofs.Snapshots

/-! The obstacles of a map as a set of cells. An edit checks the cells that it names before it
writes any of them, so it does to the set all that it says or nothing.
-/

namespace Wayfinding

namespace Navigator

-----------------------------------------------------------------------------------------
-- Edits
-----------------------------------------------------------------------------------------

/-- The edit that a request asks for, if it asks for one. -/
def Request.toEdit? : Request → Option Edit
  | .block p => some (.block p)
  | .clear p => some (.clear p)
  | .blockAll cells => some (.blockAll cells)
  | .clearAll => some .clearAll
  | .configure _ | .markComponents | .query _ => none

namespace Edit

/-- What an edit makes of a set of obstacles. -/
def onSet (s : Finset Point) : Edit → Finset Point
  | .block p => insert p s
  | .clear p => s.erase p
  | .blockAll cells => s ∪ cells.toFinset
  | .clearAll => ∅

/-- What an edit makes of the obstacles inside a rectangle: nothing if it names a cell outside. -/
def within (r : Rectangle) (s : Finset Point) (edit : Edit) : Finset Point :=
  if ∀ p ∈ edit.cells, r.contains p = true then edit.onSet s else s

variable {s : Finset Point}

/-- An edit does to the blocked cells what it does to the set of them. -/
theorem walkable_onLayer {e : Extent} {l : Layer e Bool}
    (stored : ∀ p, (Terrain.mk e l).walkable p = true ↔ e.contains p = true ∧ p ∉ s)
    (edit : Edit) (p : Point)
    : (Terrain.mk e (edit.onLayer l)).walkable p = true
      ↔ e.contains p = true ∧ p ∉ edit.onSet s := by
  cases edit with
  | block q =>
      simp only [onLayer, onSet, Terrain.walkable_set, Finset.mem_insert]
      grind
  | clear q =>
      simp only [onLayer, onSet, Terrain.walkable_set, Finset.mem_erase]
      grind
  | blockAll cells =>
      have stored := stored p
      simp only [Terrain.walkable] at stored
      simp only [onLayer, onSet, Terrain.walkable, GridMap.get_foldl_set, Finset.mem_union,
        List.mem_toFinset]
      grind
  | clearAll => simp [onLayer, onSet, Layer.refill_eq_fill]

end Edit

end Navigator

-----------------------------------------------------------------------------------------
-- Maps without buffers
-----------------------------------------------------------------------------------------

namespace GridMap

open Navigator

variable {m after : GridMap} {r : Rectangle} {s : Finset Point}

/-- The map covers a rectangle, and exactly the cells of a set are blocked in it. -/
structure Holds (m : GridMap) (r : Rectangle) (s : Finset Point) : Prop where
  extent : m.extent.toRectangle = r
  walkable : ∀ p, m.walkable p = true ↔ r.contains p = true ∧ p ∉ s

theorem Holds.contains (holds : m.Holds r s) (p : Point) : m.extent.contains p = r.contains p :=
  congrArg (Rectangle.contains · p) holds.extent

/-- A map without obstacles blocks no cell. -/
theorem holds_create {width height : Int} {settings : Settings}
    (created : create width height settings = .ok m)
    : m.Holds ⟨width, height⟩ ∅ := by
  unfold create at created
  cases size : Extent.ofSize? width height with
  | none => simp [size] at created
  | some e =>
      simp only [size] at created
      cases created
      have extent : e.toRectangle = ⟨width, height⟩ := by
        unfold Extent.ofSize? at size
        split at size
        · cases size
          rfl
        · cases size
      refine ⟨extent, fun p => ?_⟩
      rw [← extent]
      simp [walkable, terrain, Extent.contains]

/-- An edit does to the map what it does to the set, if it names no cell outside. -/
theorem Holds.onMap (holds : m.Holds r s) (edit : Edit)
    : (edit.onMap m).2.Holds r (edit.within r s) := by
  have stored (p : Point) : m.terrain.walkable p = true ↔ m.extent.contains p = true ∧ p ∉ s := by
    rw [holds.contains p]
    exact holds.walkable p
  simp only [Edit.onMap_eq, holds.extent, Edit.within, ← Rectangle.firstOutside?_eq_none]
  cases r.firstOutside? edit.cells with
  | none =>
      refine ⟨holds.extent, fun p => ?_⟩
      rw [← holds.contains p]
      exact Edit.walkable_onLayer stored edit p
  | some p => exact holds

/-- A map with obstacles blocks exactly those that are listed. -/
theorem holds_ofObstacles {width height : Int} {settings : Settings} {cells : List Point}
    (made : ofObstacles width height settings cells = .ok m)
    : m.Holds ⟨width, height⟩ cells.toFinset := by
  obtain ⟨blank, created, blocked⟩ := ofObstacles_eq_ok.mp made
  have empty := holds_create created
  have applied := Edit.onMap_eq blank (.blockAll cells)
  have holds := empty.onMap (.blockAll cells)
  simp only [Edit.onMap, blocked, Edit.within, ← Rectangle.firstOutside?_eq_none, empty.extent]
    at applied holds
  cases first : Rectangle.firstOutside? ⟨width, height⟩ (Edit.blockAll cells).cells with
  | none => simpa [first, Edit.onSet] using holds
  | some p => simp [first] at applied

/-- What queries leave behind makes no difference to the obstacles. -/
theorem Undisturbed.holds (alike : m.Undisturbed after) (holds : m.Holds r s)
    : after.Holds r s := by
  obtain ⟨_, _, _, rfl⟩ := alike
  exact ⟨holds.extent, holds.walkable⟩

end GridMap

namespace Navigator

variable {n : Navigator} {m : GridMap} {r : Rectangle} {s : Finset Point}

/-- Of all requests only the edits change the obstacles. -/
theorem Request.holds_edit (holds : m.Holds r s) (request : Request)
    : (request.edit m).Holds r (request.toEdit?.elim s (Edit.within r s)) := by
  cases request with
  | block p => exact holds.onMap (.block p)
  | clear p => exact holds.onMap (.clear p)
  | blockAll cells => exact holds.onMap (.blockAll cells)
  | clearAll => exact holds.onMap .clearAll
  | configure | markComponents | query => exact ⟨holds.extent, holds.walkable⟩

/-- Any requests do to the map what the edits among them do to the set, by induction over the
requests.
-/
theorem holds_foldl_edit {requests : List Request} (holds : m.Holds r s)
    : (requests.foldl Request.edit m).Holds r
        ((requests.filterMap Request.toEdit?).foldl (Edit.within r) s) := by
  induction requests generalizing m s with
  | nil => exact holds
  | cons request requests ih =>
      have next := ih (Request.holds_edit holds request)
      rw [List.foldl_cons]
      cases edits : request.toEdit? with
      | none =>
          rw [List.filterMap_cons_none edits]
          rwa [edits] at next
      | some edit =>
          rw [List.filterMap_cons_some edits]
          rwa [edits] at next

-----------------------------------------------------------------------------------------
-- Maps after any requests
-----------------------------------------------------------------------------------------

/-- Every cell, inside or not, is told of as a set of obstacles in a rectangle has it, also when its
number is computed in machine words.
-/
structure Stores (n : Navigator) (r : Rectangle) (s : Finset Point) : Prop where
  walkable : ∀ p, n.walkable p = true ↔ r.contains p = true ∧ p ∉ s
  isBlocked : ∀ p, n.isBlocked p
    = if r.contains p then .ok (decide (p ∈ s)) else .error (.outOfBounds p)
  checked : ∀ p, Checked.walkable n.terrain p = some (n.walkable p)

/-- An edit of the map is refused exactly if it names a cell outside, because of the first one, and
the map that it leaves then is the one before, with all its buffers. Any other edit changes nothing
but the blocked cells.
-/
structure Takes (n : Navigator) (r : Rectangle) (edit : Edit) : Prop where
  refused (reason : MapFault) (after : Navigator)
    : edit.apply n = some (.error reason, after)
      ↔ ∃ p, r.firstOutside? edit.cells = some p ∧ reason = .outOfBounds p ∧ after = n
  accepted (inside : ∀ p ∈ edit.cells, r.contains p = true)
    : ∃ blocked, edit.apply n = some (.ok (), { n with blocked := blocked })
  performed : n.perform edit.request = (edit.apply n).map Prod.snd

theorem stores_of_holds (holds : n.toGridMap.Holds r s) : n.Stores r s := by
  refine ⟨holds.walkable, fun p => ?_, fun p => Checked.walkable_eq _ p⟩
  rw [GridMap.isBlocked, GridMap.checkInside, holds.contains p]
  cases inside : r.contains p with
  | false => rfl
  | true =>
      have walkable := holds.walkable p
      rw [inside] at walkable
      have blocked : (!n.walkable p) = decide (p ∈ s) := by grind
      simp only [if_true, Except.map, blocked]

theorem takes_of_extent (extent : n.extent.toRectangle = r) (edit : Edit) : n.Takes r edit where
  refused reason after := by
    rw [edit.apply_eq, extent]
    cases r.firstOutside? edit.cells with
    | none => simp
    | some p => simp [eq_comm]
  accepted inside := by
    rw [edit.apply_eq, extent, Rectangle.firstOutside?_eq_none.mpr inside]
    exact ⟨edit.onLayer n.blocked, rfl⟩
  performed := edit.perform_request n

/-- After any requests to a new map, its cells are told of as the set has them that the edits among
the requests make of the obstacles that it was made with, and the map takes every edit as a whole or
not at all.
-/
theorem performAll_stores {width height : Int} {settings : Settings} {cells : List Point}
    {requests : List Request} (made : GridMap.ofObstacles width height settings cells = .ok m)
    (performed : (ofMap m).performAll requests = some n)
    : n.Stores ⟨width, height⟩
        ((requests.filterMap Request.toEdit?).foldl (Edit.within ⟨width, height⟩) cells.toFinset)
      ∧ ∀ edit, n.Takes ⟨width, height⟩ edit := by
  have alike : (requests.foldl Request.edit m).Undisturbed n.toGridMap :=
    performAll_undisturbed (.refl m) performed
  have holds := alike.holds (holds_foldl_edit (GridMap.holds_ofObstacles made))
  exact ⟨stores_of_holds holds, takes_of_extent holds.extent⟩

/-- An edit that names two cells outside, behind one inside. -/
def overreach : Edit :=
  .blockAll [⟨2, 0⟩, ⟨3, 0⟩, ⟨-1, 0⟩]

/-- Requests with one edit that is refused, and with others than edits between. -/
def roadworks : List Request :=
  [.block ⟨0, 1⟩, .query (.cells ⟨0, 0⟩ ⟨2, 1⟩), overreach.request, .markComponents, .clear ⟨1, 0⟩]

theorem performAll_stores_roadworks
    : ∃ m n, GridMap.ofObstacles 3 2 {} [⟨1, 0⟩] = .ok m
      ∧ (ofMap m).performAll roadworks = some n
      ∧ n.Stores ⟨3, 2⟩ {⟨0, 1⟩}
      ∧ overreach.apply n = some (.error (.outOfBounds ⟨3, 0⟩), n)
      ∧ n.perform overreach.request = some n := by
  have runs : ((GridMap.ofObstacles 3 2 {} [⟨1, 0⟩]).toOption.bind fun m =>
      (ofMap m).performAll roadworks).isSome = true := by decide +kernel
  have left : (roadworks.filterMap Request.toEdit?).foldl (Edit.within ⟨3, 2⟩)
      [⟨1, 0⟩].toFinset = {⟨0, 1⟩} := by decide
  have outside : Rectangle.firstOutside? ⟨3, 2⟩ overreach.cells = some ⟨3, 0⟩ := by decide
  cases made : GridMap.ofObstacles 3 2 {} [⟨1, 0⟩] with
  | error =>
      rw [made] at runs
      cases runs
  | ok m =>
      rw [made] at runs
      obtain ⟨n, performed⟩ := Option.isSome_iff_exists.mp runs
      obtain ⟨stores, takes⟩ := performAll_stores made performed
      rw [left] at stores
      have refused := ((takes overreach).refused _ _).mpr ⟨_, outside, rfl, rfl⟩
      have kept := (takes overreach).performed
      rw [refused] at kept
      exact ⟨m, n, rfl, performed, stores, refused, kept⟩

end Navigator

end Wayfinding
