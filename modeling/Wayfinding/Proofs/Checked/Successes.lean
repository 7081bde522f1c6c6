import Wayfinding.Proofs.Queries.Frames
import Wayfinding.Proofs.Queries.Safety
import Wayfinding.Proofs.Smoothing

/-! Searches in machine words that find a path. Where the costs do not all fit, a search may break
off, but each step that it has taken is one that the search on integers takes too. So what it finds
is a path between its ends all the same.
-/

namespace Wayfinding

namespace Checked

variable {t : Terrain} {c c' : State t.extent} {s : Search t.extent} {start goal : Point}
  {source : Node} {rest done : List Node} {stop : Stop}

-----------------------------------------------------------------------------------------
-- Steps that have been taken
-----------------------------------------------------------------------------------------

theorem octile_eq_some {a b : Point} {cost : Int} (computed : octile a b = some cost)
    : cost = Wayfinding.octile a b := by
  rw [octile_eq, octile?] at computed
  exact (int32?_eq_some.mp computed).1.symm

/-- A stop with an open cell is only taken note of if its estimate fits. -/
theorem reach_le_of_consider {outcome : Except MapFault (State t.extent)}
    (inside : t.extent.contains stop.cell = true)
    (considered : consider goal source c stop = some outcome)
    (unclosed : c.closed.get stop.cell false = false)
    : (Search.reach source stop).cost + Wayfinding.octile stop.cell goal ≤ 2147483647 := by
  rw [consider, read_eq _ inside false, unclosed, Option.bind_eq_bind, Option.bind_some] at considered
  obtain ⟨run, ran, considered⟩ := Option.bind_eq_some_iff.mp considered
  obtain ⟨cost, summed, considered⟩ := Option.bind_eq_some_iff.mp considered
  obtain ⟨ahead, estimated, considered⟩ := Option.bind_eq_some_iff.mp considered
  obtain ⟨total, fits, _⟩ := Option.bind_eq_some_iff.mp considered
  obtain rfl := octile_eq_some ran
  obtain rfl := octile_eq_some estimated
  obtain ⟨rfl, _⟩ := int32?_eq_some.mp summed
  obtain ⟨rfl, _, le⟩ := int32?_eq_some.mp fits
  exact le

/-- Where a search takes note of a stop, so does the one on integers. -/
theorem follows_of_consider (follows : c.Follows s)
    (ledger : t.Ledger start goal (source :: rest) s)
    (sweeps : ∃ d k, t.Sweep goal source.cell d stop.cell stop.heading k)
    (considered : consider goal source c stop = some (.ok c'))
    : ∃ s', c'.Follows s' ∧ t.Ledger start goal (source :: rest) s' := by
  obtain ⟨d, k, sweep⟩ := sweeps
  obtain ⟨sound, _⟩ := ledger.recorded.head
  have inside := Terrain.contains_of_walkable (sweep.walk sound.walk.walkable).walkable
  obtain ⟨s', noted, ledger', _⟩ := ledger.consider_of_le sweep fun unclosed =>
    reach_le_of_consider inside considered (follows.closed ▸ unclosed)
  obtain ⟨c₁, same, follows'⟩ := follows.consider ledger.consistent.heap inside noted
  rw [considered] at same
  cases same
  exact ⟨s', follows', ledger'⟩

/-- Where a search considers all stops, so does the one on integers, by induction over the stops. -/
theorem follows_of_considerAll (follows : c.Follows s)
    (ledger : t.Ledger start goal (source :: rest) s) {found : List Stop}
    (sweeps : ∀ stop ∈ found, ∃ d k, t.Sweep goal source.cell d stop.cell stop.heading k)
    (considered : considerAll goal source found c = some (.ok c'))
    : ∃ s', c'.Follows s' ∧ t.Ledger start goal (source :: rest) s' := by
  induction found generalizing c s with
  | nil =>
      cases considered
      exact ⟨s, follows, ledger⟩
  | cons stop found ih =>
      obtain ⟨reason | c₁, first, others⟩ := Option.bind_eq_some_iff.mp considered
      · cases others
      · obtain ⟨s₁, follows₁, ledger₁⟩ :=
          follows_of_consider follows ledger (sweeps stop List.mem_cons_self) first
        exact ih follows₁ ledger₁ (fun stop hs => sweeps stop (List.mem_cons_of_mem _ hs)) others

/-- Where a search expands the node that it has closed last, so does the one on integers. -/
theorem follows_of_expand (follows : c.Follows s)
    (ledger : t.Ledger start goal (source :: rest) s)
    (expanded : expand t goal source c = some (.ok c'))
    : ∃ s', c'.Follows s' ∧ t.Ledger start goal (source :: rest) s' := by
  obtain ⟨sound, _⟩ := ledger.recorded.head
  rw [expand, stops_eq sound.inside] at expanded
  have sweeps := t.jumps_sweep goal source.cell (t.directions source.cell source.heading)
  exact follows_of_considerAll follows ledger sweeps.stops expanded

/-- Where the rounds of a search come to the goal, so does the search on integers, by induction over
the rounds.
-/
theorem follows_of_rounds (follows : c.Follows s) (ledger : t.Ledger start goal done s)
    {k : Nat} (reached : rounds t goal k c = some (.ok (some c')))
    : ∃ s' node earlier,
        c'.Follows s' ∧ node.cell = goal ∧ t.Ledger start goal (node :: earlier) s' := by
  induction k generalizing c s done with
  | zero => cases reached
  | succ k ih =>
      obtain ⟨_ | ⟨node, c₁⟩, closed, reached⟩ := Option.bind_eq_some_iff.mp reached
      · cases reached
      · obtain ⟨x, heap, popped, rfl, follows₁⟩ := follows.of_close ledger.consistent closed
        have ledger₁ := ledger.close popped
        dsimp only at reached
        split at reached
        case isTrue cell =>
          cases reached
          exact ⟨_, x.value, done, follows₁, cell, ledger₁⟩
        case isFalse =>
          obtain ⟨reason | c₂, expanded, reached⟩ := Option.bind_eq_some_iff.mp reached
          · cases reached
          · obtain ⟨s₂, follows₂, ledger₂⟩ := follows_of_expand follows₁ ledger₁ expanded
            exact ih follows₂ ledger₂ reached

-----------------------------------------------------------------------------------------
-- Paths that have been found
-----------------------------------------------------------------------------------------

/-- A search that comes to the goal has closed it in a state of the search on integers. -/
theorem exists_ledger_of_search (free : t.walkable start = true)
    (reached : search t goal start = some (.ok (some c)))
    : ∃ s node earlier,
        c.Follows s ∧ node.cell = goal ∧ t.Ledger start goal (node :: earlier) s := by
  obtain ⟨reason | c₀, begun, reached⟩ := Option.bind_eq_some_iff.mp reached
  · cases reached
  · -- The estimate of the start is computed first of all.
    have affordable : Wayfinding.octile start goal ≤ 2147483647 := by
      rw [initial] at begun
      split at begun
      · cases begun
      · obtain ⟨estimate, computed, _⟩ := Option.bind_eq_some_iff.mp begun
        rw [octile_eq, octile?] at computed
        obtain ⟨rfl, _, le⟩ := int32?_eq_some.mp computed
        exact le
    obtain ⟨s₀, first, ledger⟩ := Terrain.exists_ledger_of_le free affordable
    obtain ⟨c₁, same, follows⟩ := State.exists_initial (Terrain.contains_of_walkable free) first
    rw [begun] at same
    cases same
    exact follows_of_rounds follows ledger reached

/-- The path between two open cells, if one is found, begins and ends there. -/
theorem ends_route {m : GridMap} {cells : List Point} (free : m.walkable start = true)
    (found : route m start goal = some (.ok (some cells)))
    : cells.length < 18446744073709551614
      ∧ cells.head? = some start
      ∧ cells.getLast? = some goal := by
  rw [route] at found
  split at found
  case isTrue same =>
    cases found
    exact ⟨by simp, rfl, by simp [same]⟩
  case isFalse =>
    obtain ⟨_, _, found⟩ := Option.bind_eq_some_iff.mp found
    split at found
    · cases found
    · obtain ⟨reason | _ | c, searched, found⟩ := Option.bind_eq_some_iff.mp found
      · cases found
      · cases found
      · obtain ⟨s, node, earlier, follows, rfl, ledger⟩ := exists_ledger_of_search free searched
        obtain ⟨path, told, found⟩ := Option.bind_eq_some_iff.mp found
        cases found
        cases told.symm.trans (path_eq follows ledger)
        exact ⟨length_path_lt s _, ledger.trail.head?, ledger.trail.getLast?⟩

end Checked

-----------------------------------------------------------------------------------------
-- Paths that are kept
-----------------------------------------------------------------------------------------

namespace GridMap

/-- The latest path after a query, by its answer and the latest path before: a path that is found is
kept, and so is the fact that there is none.
-/
def Answer.kept (answer : Answer (List Point)) (before : List Point) : List Point :=
  match answer with
  | .error _ => before
  | .ok none => []
  | .ok (some cells) => cells

end GridMap

namespace Checked

variable {m after : GridMap} {start goal : Point} {smoothing : Bool}

/-- What a query between cells keeps depends on its answer alone, and a path in it begins and ends
at these cells.
-/
theorem kept_queryCells {answer : GridMap.Answer (List Point)}
    (asked : queryCells m smoothing start goal = some (answer, after))
    : after.latestPath = answer.kept m.latestPath
      ∧ ∀ cells, answer = .ok (some cells) →
          cells.head? = some start ∧ cells.getLast? = some goal := by
  obtain ⟨first, last, ended⟩ := m.exists_checkEnds start goal
  rw [queryCells, checkEnds_eq, Option.bind_eq_bind, Option.bind_some] at asked
  rcases checked : m.checkEnds start goal with ⟨reason | _, recorded⟩
  · rw [checked] at asked ended
    cases asked
    cases ended
    exact ⟨rfl, by simp⟩
  · have free : ({ m with start := first, goal := last } : GridMap).walkable start = true :=
      (GridMap.walkable_of_checkEnds checked).1
    rw [checked] at asked ended
    cases ended
    obtain ⟨reason | _ | cells, routed, answered⟩ := Option.bind_eq_some_iff.mp asked
    · cases answered
      exact ⟨rfl, by simp⟩
    · cases answered
      exact ⟨rfl, by simp⟩
    · obtain ⟨short, begins, ends⟩ := ends_route free routed
      cases smoothing with
      | false =>
          cases answered
          refine ⟨rfl, fun _ same => ?_⟩
          cases same
          exact ⟨begins, ends⟩
      | true =>
          obtain ⟨shortened, smoothed, answered⟩ := Option.bind_eq_some_iff.mp answered
          cases answered
          cases smoothed.symm.trans (smooth_eq short)
          refine ⟨rfl, fun _ same => ?_⟩
          cases same
          exact ⟨(shorten_head? _ cells).trans begins, (shorten_getLast? _ cells).trans ends⟩

end Checked

end Wayfinding
