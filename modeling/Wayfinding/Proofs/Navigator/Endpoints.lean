import Wayfinding.Proofs.Navigator.Independence
import Wayfinding.Proofs.Queries.Ways

/-! Which queries a map refuses because of their ends. All queries have their ends checked in the
same way, but for one between positions in the same cell, which is answered before the map is
looked at.
-/

namespace Wayfinding.Navigator

namespace Query

/-- The cell that a query starts from. -/
def start : Query → Point
  | .cells start _ | .rawCells start _ => start
  | .way start _ => start.cell

/-- The cell that a query leads to. -/
def goal : Query → Point
  | .cells _ goal | .rawCells _ goal => goal
  | .way _ goal => goal.cell

/-- The ends of a query are cells or finite positions. -/
def finite : Query → Bool
  | .cells .. | .rawCells .. => true
  | .way start goal => start.finite && goal.finite

/-- The query is for a way between positions in the same cell. -/
def stays : Query → Bool
  | .cells .. | .rawCells .. => false
  | .way start goal => start.cell == goal.cell

/-- The ends of a query are finite and lie inside an extent. -/
structure Within (q : Query) (e : Extent) : Prop where
  finite : q.finite = true
  start : e.contains q.start = true
  goal : e.contains q.goal = true

end Query

/-- The reply to a query is that it is refused for this reason. -/
def Rejects (n : Navigator) (q : Query) (reason : MapFault) : Prop :=
  ∃ reply after, n.ask q = some (reply, after) ∧ reply.fault? = some reason

variable {n after : Navigator} {m : GridMap} {p start goal : Point} {reason : MapFault}

-----------------------------------------------------------------------------------------
-- Ends
-----------------------------------------------------------------------------------------

theorem isBlocked_of_contains (inside : m.extent.contains p = true)
    : m.isBlocked p = .ok (!m.walkable p) := by
  rw [GridMap.isBlocked, GridMap.checkInside, if_pos inside]
  rfl

/-- Of two ends inside, a blocked start is refused before a blocked goal. -/
theorem checkEnds_fst_of_contains (inside : m.extent.contains start = true)
    (insideGoal : m.extent.contains goal = true)
    : (m.checkEnds start goal).1
      = if m.isBlocked start = .ok true then .error (.blockedStart start)
        else if m.isBlocked goal = .ok true then .error (.blockedEnd goal)
        else .ok () := by
  rw [isBlocked_of_contains inside, isBlocked_of_contains insideGoal, GridMap.checkEnds,
    GridMap.checkInside, GridMap.checkInside, if_pos inside, if_pos insideGoal]
  have same : ∀ q, ({ m with start := some start, goal := some goal } : GridMap).walkable q
      = m.walkable q := fun _ => rfl
  simp only [same]
  cases m.walkable start <;> cases m.walkable goal <;> rfl

-----------------------------------------------------------------------------------------
-- Queries between cells
-----------------------------------------------------------------------------------------

/-- A query whose ends are refused is refused for the same reason. -/
theorem exists_queryCells_of_checkEnds (smoothing : Bool)
    (refused : (n.toGridMap.checkEnds start goal).1 = .error reason)
    : ∃ after, n.queryCells smoothing start goal = some (.error reason, after) := by
  rw [queryCells, checkEnds_eq]
  rcases checked : n.toGridMap.checkEnds start goal with ⟨first | _, ended⟩
  · rw [checked] at refused
    cases refused
    exact ⟨_, rfl⟩
  · rw [checked] at refused
    cases refused

/-- A query is refused because of its ends or because of the open set, before anything is smoothed.
-/
theorem queryCells_error {smoothing : Bool}
    (failed : n.queryCells smoothing start goal = some (.error reason, after))
    : ((n.toGridMap.checkEnds start goal).1 = .error reason ∨ ∃ inner, reason = .heap inner)
      ∧ ∀ other, n.queryCells other start goal = some (.error reason, after) := by
  rw [queryCells, checkEnds_eq] at failed
  simp only [queryCells, checkEnds_eq]
  rcases checked : n.toGridMap.checkEnds start goal with ⟨refused | _, ended⟩
  · rw [checked] at failed
    cases failed
    exact ⟨.inl rfl, fun _ => rfl⟩
  · rw [checked] at failed
    obtain ⟨_, recorded, failed⟩ := Option.bind_eq_some_iff.mp failed
    cases recorded
    obtain ⟨⟨inner | found, last⟩, sought, failed⟩ := Option.bind_eq_some_iff.mp failed
    · cases failed
      refine ⟨.inr ⟨inner, rfl⟩, fun other => ?_⟩
      exact Option.bind_eq_some_iff.mpr ⟨_, rfl, Option.bind_eq_some_iff.mpr ⟨_, sought, rfl⟩⟩
    · cases found with
      | false => cases failed
      | true =>
          obtain ⟨raw, -, failed⟩ := Option.bind_eq_some_iff.mp failed
          cases smoothing with
          | false => cases failed
          | true =>
              obtain ⟨cells, -, failed⟩ := Option.bind_eq_some_iff.mp failed
              cases failed

-----------------------------------------------------------------------------------------
-- Queries of all kinds
-----------------------------------------------------------------------------------------

theorem fault?_cells {answer : GridMap.Answer (List Point)}
    : (Reply.cells answer).fault? = some reason ↔ answer = .error reason := by
  cases answer <;> simp [Reply.fault?]

theorem fault?_way {answer : GridMap.Answer (List Position)}
    : (Reply.way answer).fault? = some reason ↔ answer = .error reason := by
  cases answer <;> simp [Reply.fault?]

/-- Wrapping an answer into a reply does not change whether it is a refusal. -/
theorem exists_reply_iff {α : Type} {answered : Option (GridMap.Answer α × Navigator)}
    {wrap : GridMap.Answer α → Reply}
    (wraps : ∀ {answer}, (wrap answer).fault? = some reason ↔ answer = .error reason)
    : (∃ reply after, answered.map (Prod.map wrap id) = some (reply, after)
        ∧ reply.fault? = some reason)
      ↔ ∃ after, answered = some (.error reason, after) := by
  constructor
  · rintro ⟨_, after, mapped, failed⟩
    obtain ⟨⟨answer, left⟩, rfl, same⟩ := Option.map_eq_some_iff.mp mapped
    cases same
    exact ⟨left, by rw [wraps.mp failed]⟩
  · rintro ⟨after, rfl⟩
    exact ⟨_, after, rfl, wraps.mpr rfl⟩

/-- A query between positions in different cells is refused as one between their cells. -/
theorem findWay_error_iff {first last : Position} (within : (Query.way first last).Within n.extent)
    (apart : first.cell ≠ last.cell)
    : n.findWay first last = some (.error reason, after)
      ↔ n.queryCells true first.cell last.cell = some (.error reason, after) := by
  obtain ⟨finite, finiteGoal⟩ := Bool.and_eq_true_iff.mp within.finite
  rw [findWay, GridMap.locate_of_contains finite within.start,
    GridMap.locate_of_contains finiteGoal within.goal]
  simp only [apart, if_false, Option.bind_eq_bind]
  rcases n.queryCells true first.cell last.cell with _ | ⟨refused | _ | cells, left⟩
  · simp
  · simp
  · simp
  · simp only [Option.bind_some]
    split <;> simp

/-- Any two queries with the same ends inside are refused for the same reasons, unless one of them
stays in its cell.
-/
theorem rejects_iff {q : Query} (within : q.Within n.extent) (goes : q.stays = false)
    : n.Rejects q reason
      ↔ ∃ after, n.queryCells true q.start q.goal = some (.error reason, after) := by
  cases q with
  | cells | rawCells =>
      refine (exists_reply_iff fault?_cells).trans ?_
      constructor
      all_goals
        rintro ⟨after, failed⟩
        exact ⟨after, (queryCells_error failed).2 _⟩
  | way first last =>
      refine (exists_reply_iff fault?_way).trans ?_
      simp only [findWay_error_iff within (ne_of_beq_false goes)]
      rfl

/-- Open sets aside, a query is refused exactly as its ends are. -/
theorem rejects_iff_checkEnds {q : Query} (within : q.Within n.extent) (goes : q.stays = false)
    (ends : ∀ inner, reason ≠ .heap inner)
    : n.Rejects q reason ↔ (n.toGridMap.checkEnds q.start q.goal).1 = .error reason := by
  rw [rejects_iff within goes]
  constructor
  · rintro ⟨after, failed⟩
    rcases (queryCells_error failed).1 with refused | ⟨inner, same⟩
    · exact refused
    · exact absurd same (ends inner)
  · exact exists_queryCells_of_checkEnds true

/-- A query with its ends inside is refused because of a blocked start, or else of a blocked goal,
and then alike whether it is for cells or for positions in them, unless the positions are in the
same cell: then the way is straight, whatever is in the cell.
-/
theorem ask_blocked {q : Query} (within : q.Within n.extent)
    : (q.stays = false →
        (∀ p, n.Rejects q (.blockedStart p) ↔ p = q.start ∧ n.isBlocked p = .ok true)
        ∧ (∀ p, n.Rejects q (.blockedEnd p)
          ↔ p = q.goal ∧ n.isBlocked q.start = .ok false ∧ n.isBlocked p = .ok true)
        ∧ ∀ reason, n.Rejects q reason ↔ n.Rejects (.cells q.start q.goal) reason)
      ∧ ∀ first last, q = .way first last → first.cell = last.cell →
          n.ask q = some (.way (.ok (some [first, last])), n) := by
  refine ⟨fun goes => ⟨fun p => ?_, fun p => ?_, fun reason => ?_⟩, ?_⟩
  · rw [rejects_iff_checkEnds within goes (by simp),
      checkEnds_fst_of_contains within.start within.goal]
    grind
  · rw [rejects_iff_checkEnds within goes (by simp),
      checkEnds_fst_of_contains within.start within.goal, isBlocked_of_contains within.start,
      isBlocked_of_contains within.goal]
    cases n.walkable q.start <;> grind [isBlocked_of_contains within.goal]
  · have cells : (Query.cells q.start q.goal).Within n.extent := ⟨rfl, within.start, within.goal⟩
    exact (rejects_iff within goes).trans (rejects_iff cells rfl).symm
  · rintro first last rfl same
    obtain ⟨finite, finiteGoal⟩ := Bool.and_eq_true_iff.mp within.finite
    rw [ask, findWay, GridMap.locate_of_contains finite within.start,
      GridMap.locate_of_contains finiteGoal within.goal]
    simp only [same, if_true]
    rfl

/-- A map with an obstacle at its eastern end. -/
def gatepost : GridMap where
  extent := ⟨⟨3, 1⟩, by decide, by decide, by decide, by decide⟩
  blocked := (Layer.fill _ false).set ⟨2, 0⟩ true
  settings := {}
  components := none
  start := none
  goal := none
  latestPath := []

theorem ask_blocked_gatepost
    : (Query.way ⟨0.5, 0.5⟩ ⟨2.5, 0.5⟩).Within gatepost.extent
      ∧ (ofMap gatepost).Rejects (.way ⟨0.5, 0.5⟩ ⟨2.5, 0.5⟩) (.blockedEnd ⟨2, 0⟩)
      ∧ (ofMap gatepost).Rejects (.cells ⟨0, 0⟩ ⟨2, 0⟩) (.blockedEnd ⟨2, 0⟩)
      ∧ (ofMap gatepost).ask (.way ⟨2.5, 0.5⟩ ⟨2.25, 0.5⟩)
        = some (.way (.ok (some [⟨2.5, 0.5⟩, ⟨2.25, 0.5⟩])), ofMap gatepost) := by
  have within : (Query.way ⟨0.5, 0.5⟩ ⟨2.5, 0.5⟩).Within (ofMap gatepost).extent :=
    ⟨by decide +kernel, by decide +kernel, by decide +kernel⟩
  have short : (Query.way ⟨2.5, 0.5⟩ ⟨2.25, 0.5⟩).Within (ofMap gatepost).extent :=
    ⟨by decide +kernel, by decide +kernel, by decide +kernel⟩
  have start : (Query.way ⟨0.5, 0.5⟩ ⟨2.5, 0.5⟩).start = ⟨0, 0⟩ := by decide +kernel
  have goal : (Query.way ⟨0.5, 0.5⟩ ⟨2.5, 0.5⟩).goal = ⟨2, 0⟩ := by decide +kernel
  have clear : gatepost.isBlocked ⟨0, 0⟩ = .ok false := by decide +kernel
  have blocked : gatepost.isBlocked ⟨2, 0⟩ = .ok true := by decide +kernel
  obtain ⟨-, blockedEnd, alike⟩ := (ask_blocked within).1 (by decide +kernel)
  rw [start, goal] at alike
  have refused := (blockedEnd ⟨2, 0⟩).mpr ⟨goal.symm, start ▸ clear, blocked⟩
  exact ⟨within, refused, (alike _).mp refused,
    (ask_blocked short).2 _ _ rfl (by decide +kernel)⟩

/-- A map of one cell, which is blocked. -/
def boulder : GridMap where
  extent := ⟨⟨1, 1⟩, by decide, by decide, by decide, by decide⟩
  blocked := (Layer.fill _ false).set ⟨0, 0⟩ true
  settings := {}
  components := none
  start := none
  goal := none
  latestPath := []

/-- Positions in the blocked cell have a way between them all the same. -/
theorem way_within_boulder
    : GridMap.ofObstacles 1 1 {} [⟨0, 0⟩] = .ok boulder
      ∧ (Query.way ⟨0.5, 0.5⟩ ⟨0.25, 0.25⟩).Within boulder.extent
      ∧ boulder.isBlocked ⟨0, 0⟩ = .ok true
      ∧ (ofMap boulder).Rejects (.cells ⟨0, 0⟩ ⟨0, 0⟩) (.blockedStart ⟨0, 0⟩)
      ∧ ∀ reason, ¬ (ofMap boulder).Rejects (.way ⟨0.5, 0.5⟩ ⟨0.25, 0.25⟩) reason := by
  have within : (Query.way ⟨0.5, 0.5⟩ ⟨0.25, 0.25⟩).Within boulder.extent :=
    ⟨by decide +kernel, by decide +kernel, by decide +kernel⟩
  have refused : ((ofMap boulder).ask (.cells ⟨0, 0⟩ ⟨0, 0⟩)).bind (·.1.fault?)
      = some (.blockedStart ⟨0, 0⟩) := by decide +kernel
  have answered : ((ofMap boulder).ask (.way ⟨0.5, 0.5⟩ ⟨0.25, 0.25⟩)).bind (·.1.fault?) = none := by
    decide +kernel
  refine ⟨by decide +kernel, within, by decide +kernel, ?_, ?_⟩
  · obtain ⟨⟨reply, after⟩, asked, fault⟩ := Option.bind_eq_some_iff.mp refused
    exact ⟨reply, after, asked, fault⟩
  · rintro reason ⟨reply, after, asked, fault⟩
    rw [asked, Option.bind_some, fault] at answered
    cases answered

end Wayfinding.Navigator
