import Wayfinding.Proofs.Navigator.Queries
import Wayfinding.Proofs.Queries.Rejection
import Wayfinding.Proofs.Smoothing

/-! Ways between positions. The way between two positions in different cells is told by the smoothed
path between the cells: both come to the same verdict, and the way leads from the one position to
the other through the middles of the cells between, with at most one corner beside either end where
an obstacle on the line to it can be gone around.
-/

namespace Wayfinding

/-- The cells of a path without the first and the last one. -/
def interior (cells : List Point) : List Point :=
  cells.tail.dropLast

/-- A path between different cells has at least two. -/
theorem two_le_length {p q : Point} {cells : List Point} (apart : p ≠ q)
    (ends : cells.head? = some p ∧ cells.getLast? = some q)
    : 2 ≤ cells.length := by
  obtain ⟨first, last⟩ := ends
  match cells with
  | [] => cases first
  | [a] =>
      cases first
      cases last
      exact absurd rfl apart
  | _ :: _ :: rest => simp

namespace Terrain

-----------------------------------------------------------------------------------------
-- Corners to go around
-----------------------------------------------------------------------------------------

/-- What may be put in between two positions: at most one corner, which belongs to the obstacle on
the line between them and from just off which both are in sight, and certainly one if the obstacle
has such a corner.
-/
structure Skirts (t : Terrain) (offset : Float32) (a b : Position) (between : List Position)
    : Prop where
  atMostOne : between.length ≤ 1
  corner
    : ∀ via ∈ between,
        ∃ cell corner,
          t.obstacle? a b = some cell
          ∧ corner ∈ cell.corners
          ∧ via = corner.corner
          ∧ t.sees (cell.offCorner offset corner) a = true
          ∧ t.sees (cell.offCorner offset corner) b = true
  found
    : ∀ cell corner,
        t.obstacle? a b = some cell
        → corner ∈ cell.corners
        → t.sees (cell.offCorner offset corner) a = true
        → t.sees (cell.offCorner offset corner) b = true
        → between ≠ []

/-- The corners of the obstacle on a line, if there is one, have coordinates that fit. -/
def CornersFit (t : Terrain) (a b : Position) : Prop :=
  ∀ cell, t.obstacle? a b = some cell → (⟨cell.x + 1, cell.y + 1⟩ : Point).Fits

variable {t : Terrain} {a b start goal : Position} {offset : Float32}

/-- Unless the corners of an obstacle do not fit, the way around it is found: the first corner that
leads around.
-/
theorem exists_detour (offset : Float32) (fits : t.CornersFit a b)
    : ∃ between, t.detour offset a b = .ok between ∧ t.Skirts offset a b between := by
  cases blocked : t.obstacle? a b with
  | none =>
      refine ⟨[], by rw [detour, blocked], Nat.zero_le 1, by simp, ?_⟩
      intro cell corner impossible
      rw [blocked] at impossible
      cases impossible
  | some cell =>
      let around := cell.corners.find? (t.leadsAround offset cell a b)
      have checked := Checked.checked?_of_fits (fits cell blocked)
      have turned : t.detour offset a b = .ok (around.map Point.corner).toList := by
        rw [detour, blocked]
        simp only [cornerAround?, checked]
        rfl
      refine ⟨_, turned, Option.length_toList_le, ?_, ?_⟩
      · intro via member
        obtain ⟨corner, first, rfl⟩ := Option.map_eq_some_iff.mp (Option.mem_toList.mp member)
        have leads := List.find?_some first
        rw [leadsAround, Bool.and_eq_true] at leads
        exact ⟨cell, corner, blocked, List.mem_of_find?_eq_some first, rfl, leads⟩
      · intro other corner same member seesA seesB none
        obtain rfl : cell = other := Option.some.inj (blocked.symm.trans same)
        simp only [Option.toList_eq_nil_iff, Option.map_eq_none_iff] at none
        have fails := List.find?_eq_none.mp none corner member
        exact fails (by rw [leadsAround, seesA, seesB]; rfl)

-----------------------------------------------------------------------------------------
-- Ways along cells
-----------------------------------------------------------------------------------------

/-- The way leads from one position to the other through the middles of the interior cells of a
path. Before them it may go around an obstacle on the line to the second cell and, if there are any,
after them around one on the line from the last of them.
-/
inductive LeadsAlong (t : Terrain) (offset : Float32) (start goal : Position)
    : List Point → List Position → Prop
  | intro {cells : List Point} {second : Point} {before after : List Position}
    (next : cells[1]? = some second)
    (departing : t.Skirts offset start second.center before)
    (arriving : ∀ last, (interior cells).getLast? = some last
      → t.Skirts offset last.center goal after)
    (adjacent : interior cells = [] → after = [])
    : LeadsAlong t offset start goal cells
        (start :: before ++ (interior cells).map Point.center ++ after ++ [goal])

/-- The corners fit of the obstacles that a way along cells may have to go around. -/
structure WayFits (t : Terrain) (cells : List Point) (start goal : Position) : Prop where
  departing : ∀ second, cells[1]? = some second → t.CornersFit start second.center
  arriving : ∀ last, (interior cells).getLast? = some last → t.CornersFit last.center goal

/-- Along a path of at least two cells there is a way, unless corners do not fit. -/
theorem exists_way {cells : List Point} (offset : Float32) (long : 2 ≤ cells.length)
    (fits : t.WayFits cells start goal)
    : ∃ way,
        t.way offset cells start goal = .ok way
        ∧ t.LeadsAlong offset start goal cells way := by
  match cells, long with
  | first :: second :: rest, _ =>
      obtain ⟨before, departs, departing⟩ := exists_detour offset (fits.departing second rfl)
      have inner : interior (first :: second :: rest) = (second :: rest).dropLast := rfl
      cases last : (second :: rest).dropLast.getLast? with
      | none =>
          refine ⟨_, ?_, .intro rfl departing ?_ fun _ => rfl⟩
          · simp only [way, departs, last]
            rfl
          · simp [inner, last]
      | some cell =>
          obtain ⟨after, arrives, arriving⟩ := exists_detour offset (fits.arriving cell last)
          refine ⟨start :: before ++ _ ++ after ++ [goal], ?_,
            .intro rfl departing ?_ fun empty => ?_⟩
          · simp only [way, departs, last, arrives]
            rfl
          · intro other same
            cases last.symm.trans same
            exact arriving
          · rw [← inner, empty] at last
            cases last

end Terrain

namespace GridMap

variable {m : GridMap} {p q : Point} {cells : List Point} {start goal : Position}

-----------------------------------------------------------------------------------------
-- Smoothed paths between cells
-----------------------------------------------------------------------------------------

/-- The map with the setting that paths between cells are smoothed. -/
def smoothing (m : GridMap) : GridMap :=
  m.configure { m.settings with smooth := true }

/-- Whether paths are smoothed makes no difference to the route. -/
theorem route_smoothing (m : GridMap) (p q : Point) : m.smoothing.route p q = m.route p q := by
  have connects : m.smoothing.mayConnect p q = m.mayConnect p q := m.mayConnect_configure _ p q
  have setting : m.smoothing.settings.connectivityReject = m.settings.connectivityReject := rfl
  have search : m.smoothing.terrain.search p q = m.terrain.search p q := rfl
  rw [route, route, connects, setting, search]
  rcases m.terrain.search p q with _ | _ | _ <;> rfl

theorem findCells_smoothing (m : GridMap) (p q : Point)
    : (m.smoothing.findCells p q).1 = (m.queryCells true p q).1 :=
  queryCells_configure true fun _ _ => m.route_smoothing p q

/-- A path that a query answers with is kept. -/
theorem latestPath_queryCells {smooth : Bool} {after : GridMap}
    (found : m.queryCells smooth p q = (.ok (some cells), after))
    : after.latestPath = cells := by
  rw [queryCells] at found
  generalize m.checkEnds p q = checked at found
  obtain ⟨_ | _, recorded⟩ := checked
  · cases found
  · dsimp only at found
    generalize recorded.route p q = answer at found
    obtain _ | _ | raw := answer
    · cases found
    · cases found
    · cases found
      rfl

/-- A path between cells begins and ends there. -/
theorem ends_queryCells {smooth : Bool} (fits : m.extent.CostsFit)
    (found : (m.queryCells smooth p q).1 = .ok (some cells))
    : cells.head? = some p ∧ cells.getLast? = some q := by
  rw [queryCells_fst] at found
  rcases checked : m.checkEnds p q with ⟨_ | _, recorded⟩
  · rw [checked] at found
    cases found
  · obtain ⟨free, target⟩ := walkable_of_checkEnds checked
    rw [checked] at found
    rcases routed : m.route p q with _ | _ | raw
    · rw [routed] at found
      cases found
    · rw [routed] at found
      cases found
    · rw [routed] at found
      obtain ⟨_, trail, _⟩ := trail_of_route fits free target routed
      cases smooth with
      | false =>
          cases found
          exact ⟨trail.head?, trail.getLast?⟩
      | true =>
          cases found
          exact ⟨(shorten_head? _ raw).trans trail.head?,
            (shorten_getLast? _ raw).trans trail.getLast?⟩

-----------------------------------------------------------------------------------------
-- Ways between positions
-----------------------------------------------------------------------------------------

/-- How the answer to a query between positions, and the path that is kept, stand to the answer for
their cells: both are the same fault, both say that there is no path, or the way leads along the
path between the cells, and this path is kept.
-/
inductive Answer.Follows (t : Terrain) (offset : Float32) (start goal : Position)
    : Answer (List Point) → Answer (List Position) → List Point → Prop
  | fault (reason : MapFault) (kept : List Point)
    : Follows t offset start goal (.error reason) (.error reason) kept
  | nowhere (kept : List Point) : Follows t offset start goal (.ok none) (.ok none) kept
  | way {cells : List Point} {way : List Position}
    (leads : t.LeadsAlong offset start goal cells way)
    : Follows t offset start goal (.ok (some cells)) (.ok (some way)) cells

/-- Along the path between the cells of two positions there is a way, unless corners do not fit. -/
theorem exists_way_of_queryCells (fits : m.extent.CostsFit) (apart : start.cell ≠ goal.cell)
    (corners : m.terrain.WayFits cells start goal)
    (found : (m.queryCells true start.cell goal.cell).1 = .ok (some cells))
    : ∃ way,
        m.terrain.way m.settings.cornerOffset cells start goal = .ok way
        ∧ m.terrain.LeadsAlong m.settings.cornerOffset start goal cells way :=
  Terrain.exists_way _ (two_le_length apart (ends_queryCells fits found)) corners

/-- A query between positions in different cells follows the smoothed one between their cells. -/
theorem follows_findWay (fits : m.extent.CostsFit) (finite : start.finite = true)
    (finiteGoal : goal.finite = true) (inside : m.extent.contains start.cell = true)
    (insideGoal : m.extent.contains goal.cell = true) (apart : start.cell ≠ goal.cell)
    (corners : ∀ cells, (m.queryCells true start.cell goal.cell).1 = .ok (some cells)
      → m.terrain.WayFits cells start goal)
    : Answer.Follows m.terrain m.settings.cornerOffset start goal
        (m.queryCells true start.cell goal.cell).1 (m.findWay start goal).1
        (m.findWay start goal).2.latestPath := by
  rw [findWay, locate_of_contains finite inside, locate_of_contains finiteGoal insideGoal]
  dsimp only
  rw [if_neg apart]
  have alike := m.undisturbed_queryCells true start.cell goal.cell
  rcases found : m.queryCells true start.cell goal.cell with ⟨reason | _ | cells, after⟩
  · exact .fault reason _
  · exact .nowhere _
  · rw [found] at alike corners
    have answered : (m.queryCells true start.cell goal.cell).1 = .ok (some cells) := by rw [found]
    obtain ⟨way, told, leads⟩ := exists_way_of_queryCells fits apart (corners cells rfl) answered
    have kept := latestPath_queryCells found
    have same : after.terrain.way after.settings.cornerOffset cells start goal = .ok way :=
      (alike.way_eq cells start goal).symm.trans told
    dsimp only
    rw [same]
    subst kept
    exact .way leads

end GridMap

-----------------------------------------------------------------------------------------
-- Ways in words
-----------------------------------------------------------------------------------------

namespace Navigator

/-- A query between positions gives the answer that the map gives without buffers and leaves the
same map, as long as the costs fit and there is a way along the path between the cells.
-/
theorem findWay_of_costsFit (n : Navigator) (fits : n.extent.CostsFit) {start goal : Position}
    (told : ∀ cells, (n.toGridMap.queryCells true start.cell goal.cell).1 = .ok (some cells)
      → ∃ way, n.terrain.way n.settings.cornerOffset cells start goal = .ok way)
    : (n.findWay start goal).map (Prod.map id toGridMap)
      = some (n.toGridMap.findWay start goal) := by
  rw [findWay, GridMap.findWay]
  rcases located : n.locate start with _ | p
  · rfl
  · rcases locatedGoal : n.locate goal with _ | q
    · rfl
    · obtain rfl := GridMap.eq_cell_of_locate located
      obtain rfl := GridMap.eq_cell_of_locate locatedGoal
      dsimp only
      split
      · rfl
      · have queried := n.queryCells_of_costsFit fits true start.cell goal.cell
        have alike := n.toGridMap.undisturbed_queryCells true start.cell goal.cell
        obtain ⟨⟨answer, after⟩, asked, same⟩ := Option.map_eq_some_iff.mp queried
        rw [← same] at told alike ⊢
        rw [asked]
        obtain _ | _ | cells := answer
        · rfl
        · rfl
        · obtain ⟨way, along⟩ := told cells rfl
          have ahead : after.terrain.way after.settings.cornerOffset cells start goal = .ok way :=
            (alike.way_eq cells start goal).symm.trans along
          simp only [Prod.map, id, Option.bind_eq_bind, Option.bind_some, ahead]
          rfl

end Navigator

namespace GridMap

variable {m : GridMap} {start goal : Position}

/-- A query between finite positions inside, in different cells, comes to the same verdict as the
smoothed one between their cells, as long as the costs fit and so do the corners of obstacles beside
the ends. A way leads along the smoothed path between the cells, which is kept as the latest one.
The query stays within its words, whatever the buffers of the map hold.
-/
theorem findWay_follows (fits : m.extent.CostsFit) (finite : start.finite = true)
    (finiteGoal : goal.finite = true) (inside : m.extent.contains start.cell = true)
    (insideGoal : m.extent.contains goal.cell = true) (apart : start.cell ≠ goal.cell)
    (corners : ∀ cells, (m.smoothing.findCells start.cell goal.cell).1 = .ok (some cells)
      → m.terrain.WayFits cells start goal)
    : Answer.Follows m.terrain m.settings.cornerOffset start goal
        (m.smoothing.findCells start.cell goal.cell).1 (m.findWay start goal).1
        (m.findWay start goal).2.latestPath
      ∧ ∀ n : Navigator, n.toGridMap = m
          → (n.findWay start goal).map (Prod.map id Navigator.toGridMap)
            = some (m.findWay start goal) := by
  rw [findCells_smoothing] at corners ⊢
  refine ⟨follows_findWay fits finite finiteGoal inside insideGoal apart corners, ?_⟩
  rintro n rfl
  refine n.findWay_of_costsFit fits fun cells found => ?_
  obtain ⟨way, told, _⟩ := exists_way_of_queryCells fits apart (corners cells found) found
  exact ⟨way, told⟩

/-- A map with an obstacle in the middle. -/
def pillared : GridMap where
  extent := Terrain.pillar.extent
  blocked := Terrain.pillar.blocked
  settings := {}
  components := none
  start := none
  goal := none
  latestPath := []

/-- A position to the north of the obstacle. -/
def north : Position :=
  ⟨1.25, 0.75⟩

/-- A position to the south of the obstacle. -/
def south : Position :=
  ⟨1.25, 2.25⟩

/-- The way past the obstacle goes around it twice, before and after the cell beside it. -/
theorem findWay_follows_pillared
    : pillared.extent.CostsFit
      ∧ north.finite = true
      ∧ south.finite = true
      ∧ Answer.Follows Terrain.pillar 0.1 north south
          (.ok (some [⟨1, 0⟩, ⟨2, 1⟩, ⟨1, 2⟩]))
          (.ok (some [north, ⟨2, 1⟩, ⟨2.5, 1.5⟩, ⟨2, 2⟩, south]))
          [⟨1, 0⟩, ⟨2, 1⟩, ⟨1, 2⟩] := by
  have fits : pillared.extent.CostsFit := by decide
  have finite : north.finite = true := by decide +kernel
  have finiteGoal : south.finite = true := by decide +kernel
  have inside : pillared.extent.contains north.cell = true := by decide +kernel
  have insideGoal : pillared.extent.contains south.cell = true := by decide +kernel
  have apart : north.cell ≠ south.cell := by decide +kernel
  have found : (pillared.smoothing.findCells north.cell south.cell).1
      = .ok (some [⟨1, 0⟩, ⟨2, 1⟩, ⟨1, 2⟩]) := by decide +kernel
  have departing : pillared.terrain.obstacle? north (Point.center ⟨2, 1⟩) = some ⟨1, 1⟩ := by
    decide +kernel
  have arriving : pillared.terrain.obstacle? (Point.center ⟨2, 1⟩) south = some ⟨1, 1⟩ := by
    decide +kernel
  have corners : ∀ cells,
      (pillared.smoothing.findCells north.cell south.cell).1 = .ok (some cells)
      → pillared.terrain.WayFits cells north south := by
    intro cells same
    cases found.symm.trans same
    refine ⟨fun second place cell met => ?_, fun last place cell met => ?_⟩
    · cases place
      cases departing.symm.trans met
      decide
    · cases place
      cases arriving.symm.trans met
      decide
  have told : (pillared.findWay north south).1
      = .ok (some [north, ⟨2, 1⟩, ⟨2.5, 1.5⟩, ⟨2, 2⟩, south]) := by decide +kernel
  have kept : (pillared.findWay north south).2.latestPath = [⟨1, 0⟩, ⟨2, 1⟩, ⟨1, 2⟩] := by
    decide +kernel
  obtain ⟨follows, _⟩ := findWay_follows fits finite finiteGoal inside insideGoal apart corners
  rw [found, told, kept] at follows
  exact ⟨fits, finite, finiteGoal, follows⟩

end GridMap

end Wayfinding
