import Wayfinding.Proofs.Checked.Successes
import Wayfinding.Proofs.Navigator.Endpoints

/-! The latest path of a map after a query. A path that is found is kept, and so is the fact that
there is none; a query that is refused, or that stays in its cell, leaves the latest path as it was.
-/

namespace Wayfinding.Navigator

variable {n after : Navigator} {start goal : Point} {smoothing : Bool}

/-- Whether a query has found a path, unless it was refused. -/
def Reply.found : Reply → Except MapFault Bool
  | .cells answer => answer.map Option.isSome
  | .way answer => answer.map Option.isSome

/-- What the latest path is after a query between two cells, by what the query has found. -/
structure KeepsPath (n : Navigator) (start goal : Point) (found : Except MapFault Bool)
    (after : Navigator) : Prop where
  ends : found = .ok true
    → after.latestPath.head? = some start ∧ after.latestPath.getLast? = some goal
  nowhere : found = .ok false → after.latestPath = []
  refused : ∀ reason, found = .error reason → after.latestPath = n.latestPath

/-- In the buffers of a map a query keeps what it keeps without them. -/
theorem keepsPath_queryCells {answer : GridMap.Answer (List Point)}
    (asked : n.queryCells smoothing start goal = some (answer, after))
    : n.KeepsPath start goal (answer.map Option.isSome) after := by
  have plain : Checked.queryCells n.toGridMap smoothing start goal
      = some (answer, after.toGridMap) := by
    rw [← queryCells_eq, asked]
    rfl
  obtain ⟨kept, ends⟩ := Checked.kept_queryCells plain
  obtain reason | _ | cells := answer
  · exact ⟨by simp [Except.map], by simp [Except.map], fun _ _ => kept⟩
  · exact ⟨by simp [Except.map], fun _ => kept, by simp [Except.map]⟩
  · refine ⟨fun _ => ?_, by simp [Except.map], by simp [Except.map]⟩
    rw [kept]
    exact ends cells rfl

theorem keepsPath_findWay {first last : Position} {answer : GridMap.Answer (List Position)}
    (asked : n.findWay first last = some (answer, after)) (apart : first.cell ≠ last.cell)
    : n.KeepsPath first.cell last.cell (answer.map Option.isSome) after := by
  cases wayReply_findWay asked with
  | outside => exact ⟨by simp [Except.map], by simp [Except.map], fun _ _ => rfl⟩
  | stays same => exact absurd same apart
  | refused _ queried => exact keepsPath_queryCells queried
  | nowhere _ queried => exact keepsPath_queryCells queried
  | found _ queried => exact keepsPath_queryCells queried

/-- A query that stays in its cell leaves the map alone. -/
theorem findWay_stays {first last : Position} {answer : GridMap.Answer (List Position)}
    (asked : n.findWay first last = some (answer, after)) (same : first.cell = last.cell)
    : after = n := by
  cases wayReply_findWay asked with
  | outside | stays => rfl
  | refused apart | nowhere apart | found apart => exact absurd same apart

/-- After a query that has found a path, the latest path leads from the cell of its start to the cell
of its goal; after one that has found none there is no latest path. A query that is refused leaves
the latest path as it was, and one that stays in its cell leaves the whole map so.
-/
theorem ask_latestPath {q : Query} {reply : Reply} (asked : n.ask q = some (reply, after))
    : (q.stays = false → n.KeepsPath q.start q.goal reply.found after)
      ∧ (q.stays = true → after = n) := by
  cases q with
  | cells start goal | rawCells start goal =>
      obtain ⟨_, found, asked⟩ := Option.map_eq_some_iff.mp asked
      cases asked
      exact ⟨fun _ => keepsPath_queryCells found, fun same => nomatch same⟩
  | way first last =>
      obtain ⟨_, found, asked⟩ := Option.map_eq_some_iff.mp asked
      cases asked
      exact ⟨fun goes => keepsPath_findWay found (ne_of_beq_false goes),
        fun same => findWay_stays found (eq_of_beq same)⟩

/-- A map of two cells without obstacles. -/
def corridor : GridMap where
  extent := ⟨⟨1, 2⟩, by decide, by decide, by decide, by decide⟩
  blocked := .fill _ false
  settings := {}
  components := none
  start := none
  goal := none
  latestPath := []

theorem ask_latestPath_corridor
    : ∃ reply after,
        (ofMap corridor).ask (.cells ⟨0, 0⟩ ⟨0, 1⟩) = some (reply, after)
        ∧ reply.found = .ok true
        ∧ after.latestPath.head? = some ⟨0, 0⟩
        ∧ after.latestPath.getLast? = some ⟨0, 1⟩ := by
  have answered : ((ofMap corridor).ask (.cells ⟨0, 0⟩ ⟨0, 1⟩)).map (·.1.found) = some (.ok true) := by
    decide +kernel
  obtain ⟨⟨reply, after⟩, asked, found⟩ := Option.map_eq_some_iff.mp answered
  exact ⟨reply, after, asked, found, ((ask_latestPath asked).1 rfl).ends found⟩

/-- The latest path outlives a query that is refused after it, and a way inside one cell does not
become the latest path.
-/
theorem latestPath_outlived
    : (((ofMap corridor).ask (.cells ⟨0, 0⟩ ⟨0, 1⟩)).bind fun first =>
        (first.2.ask (.cells ⟨0, 0⟩ ⟨0, 2⟩)).map fun second =>
          (second.1.found, second.2.latestPath))
      = some (.error (.outOfBounds ⟨0, 2⟩), [⟨0, 0⟩, ⟨0, 1⟩])
      ∧ (((ofMap corridor).ask (.way ⟨0.5, 0.5⟩ ⟨0.25, 0.25⟩)).map fun asked =>
          (asked.1.found, asked.2.latestPath))
        = some (.ok true, []) := by
  constructor <;> decide +kernel

end Wayfinding.Navigator
