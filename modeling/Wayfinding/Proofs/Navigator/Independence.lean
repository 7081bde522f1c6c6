import Wayfinding.Proofs.Navigator.Queries

/-! Queries do not learn of the past. What a map replies depends on its extent, obstacles, settings,
and marked parts alone, whatever has been done with it before, and no query changes any of these:
after any requests the map is what the edits among them have made of it.
-/

namespace Wayfinding

-----------------------------------------------------------------------------------------
-- What queries do not look at
-----------------------------------------------------------------------------------------

namespace Checked

variable {m other : GridMap}

/-- The route between two cells has nothing to do with what queries leave behind. -/
theorem route_undisturbed (alike : m.Undisturbed other) (start goal : Point)
    : route m start goal = route other start goal := by
  obtain ⟨first, last, path, rfl⟩ := alike
  have connects : mayConnect m start goal
      = mayConnect { m with start := first, goal := last, latestPath := path } start goal := by
    unfold mayConnect
    cases m.components <;> rfl
  rw [route, route, connects]
  split
  · rfl
  · simp only [Option.bind_eq_bind]
    congr 1
    funext found
    split
    · rfl
    · change (search m.terrain goal start).bind _ = (search m.terrain goal start).bind _
      obtain _ | _ | _ | _ := search m.terrain goal start <;> rfl

/-- The ends of earlier queries and the latest path are not looked at. -/
theorem queryCells_fst (alike : m.Undisturbed other) (smoothing : Bool) (start goal : Point)
    : (queryCells m smoothing start goal).map Prod.fst
      = (queryCells other smoothing start goal).map Prod.fst := by
  have verdict := alike.checkEnds_fst start goal
  have ended := m.undisturbed_checkEnds start goal
  have otherEnded := other.undisturbed_checkEnds start goal
  rw [queryCells, queryCells, checkEnds_eq, checkEnds_eq]
  generalize m.checkEnds start goal = outcome at verdict ended
  generalize other.checkEnds start goal = otherOutcome at verdict otherEnded
  obtain ⟨outcome, after⟩ := outcome
  obtain ⟨otherOutcome, otherAfter⟩ := otherOutcome
  cases verdict
  replace alike : after.Undisturbed otherAfter := ended.symm.trans (alike.trans otherEnded)
  cases outcome with
  | error => rfl
  | ok =>
      simp only [Option.bind_eq_bind, Option.bind_some, route_undisturbed alike]
      obtain ⟨_, _, _, rfl⟩ := alike
      obtain _ | _ | _ | cells := route _ start goal
      · rfl
      · rfl
      · rfl
      · cases smoothing with
        | false => rfl
        | true =>
            change Option.map Prod.fst ((smooth after.terrain cells).bind _)
              = Option.map Prod.fst ((smooth after.terrain cells).bind _)
            cases smooth after.terrain cells <;> rfl

end Checked

namespace Navigator

open Checked

variable {n after : Navigator} {start goal : Point}

-----------------------------------------------------------------------------------------
-- What a query leaves
-----------------------------------------------------------------------------------------

/-- What a query leaves of a map, by the reason for which it is refused, if it is: nothing but the
ends of queries, the latest path, and the buffers can differ, none of them after an end outside, and
only the ends after one that is blocked.
-/
structure Leaves (n : Navigator) (refused : Option MapFault) (after : Navigator) : Prop where
  map : n.toGridMap.Undisturbed after.toGridMap
  outside : ∀ p, refused = some (.outOfBounds p) → after = n
  blocked :
    ∀ p,
      refused = some (.blockedStart p) ∨ refused = some (.blockedEnd p)
      → ∃ start goal, after = { n with start := start, goal := goal }

theorem Leaves.refl (n : Navigator) {refused : Option MapFault} : n.Leaves refused n :=
  ⟨.refl _, fun _ _ => rfl, fun _ _ => ⟨n.start, n.goal, rfl⟩⟩

/-- A query whose ends are both open is not refused because of them. -/
theorem leaves_of_undisturbed (map : n.toGridMap.Undisturbed after.toGridMap)
    {refused : Option MapFault} (heap : ∀ reason ∈ refused, ∃ inner, reason = .heap inner)
    : n.Leaves refused after := by
  refine ⟨map, fun p same => ?_, fun p same => ?_⟩
  · obtain ⟨_, impossible⟩ := heap _ same
    cases impossible
  · rcases same with same | same
    all_goals
      obtain ⟨_, impossible⟩ := heap _ same
      cases impossible

theorem leaves_queryCells {smoothing : Bool} {answer : GridMap.Answer (List Point)}
    (asked : n.queryCells smoothing start goal = some (answer, after))
    : n.Leaves (Reply.cells answer).fault? after := by
  rw [queryCells, checkEnds_eq] at asked
  obtain ⟨first, last, ended⟩ := n.toGridMap.exists_checkEnds start goal
  rcases checked : n.toGridMap.checkEnds start goal with ⟨reason | _, m⟩
  case error =>
    rw [checked] at asked ended
    cases asked
    cases ended
    refine ⟨⟨first, last, n.latestPath, rfl⟩, fun p same => ?_, fun _ _ => ⟨first, last, rfl⟩⟩
    cases same
    exact congrArg (fun m : GridMap => ({ n with start := m.start, goal := m.goal } : Navigator))
      (GridMap.checkEnds_outside checked)
  case ok =>
    rw [checked] at asked ended
    cases ended
    obtain ⟨_, recorded, asked⟩ := Option.bind_eq_some_iff.mp asked
    cases recorded
    obtain ⟨⟨reason | found, other⟩, sought, answered⟩ := Option.bind_eq_some_iff.mp asked
    · obtain ⟨_, _, _, rfl⟩ := sought_seek _ start goal sought
      cases answered
      exact leaves_of_undisturbed ⟨first, last, n.latestPath, rfl⟩ (by simp [Reply.fault?])
    · obtain ⟨_, _, _, rfl⟩ := sought_seek _ start goal sought
      cases found with
      | false =>
          cases answered
          exact leaves_of_undisturbed ⟨first, last, [], rfl⟩ (by simp [Reply.fault?])
      | true =>
          obtain ⟨raw, -, answered⟩ := Option.bind_eq_some_iff.mp answered
          cases smoothing with
          | false =>
              cases answered
              exact leaves_of_undisturbed ⟨first, last, _, rfl⟩ (by simp [Reply.fault?])
          | true =>
              obtain ⟨cells, -, answered⟩ := Option.bind_eq_some_iff.mp answered
              cases answered
              exact leaves_of_undisturbed ⟨first, last, _, rfl⟩ (by simp [Reply.fault?])

/-- How a query between two positions comes to its answer: an end is refused, the positions are in
the same cell, or the query between their cells is refused, finds nothing, or finds the cells along
which the way leads.
-/
inductive WayReply (n : Navigator) (first last : Position)
    : GridMap.Answer (List Position) → Navigator → Prop
  | outside (p : Point) : n.WayReply first last (.error (.outOfBounds p)) n
  | stays (same : first.cell = last.cell) : n.WayReply first last (.ok (some [first, last])) n
  | refused {reason : MapFault} {after : Navigator} (apart : first.cell ≠ last.cell)
    (queried : n.queryCells true first.cell last.cell = some (.error reason, after))
    : n.WayReply first last (.error reason) after
  | nowhere {after : Navigator} (apart : first.cell ≠ last.cell)
    (queried : n.queryCells true first.cell last.cell = some (.ok none, after))
    : n.WayReply first last (.ok none) after
  | found {cells : List Point} {way : List Position} {after : Navigator}
    (apart : first.cell ≠ last.cell)
    (queried : n.queryCells true first.cell last.cell = some (.ok (some cells), after))
    (told : after.terrain.way after.settings.cornerOffset cells first last = .ok way)
    : n.WayReply first last (.ok (some way)) after

theorem wayReply_findWay {first last : Position} {answer : GridMap.Answer (List Position)}
    (asked : n.findWay first last = some (answer, after))
    : n.WayReply first last answer after := by
  rw [findWay] at asked
  rcases located : n.locate first with reason | p
  · obtain rfl := GridMap.eq_outOfBounds_of_locate located
    rw [located] at asked
    cases asked
    exact .outside first.cell
  · rcases locatedLast : n.locate last with reason | q
    · obtain rfl := GridMap.eq_outOfBounds_of_locate locatedLast
      rw [located, locatedLast] at asked
      cases asked
      exact .outside last.cell
    · rw [located, locatedLast] at asked
      obtain rfl := GridMap.eq_cell_of_locate located
      obtain rfl := GridMap.eq_cell_of_locate locatedLast
      dsimp only at asked
      split at asked
      case isTrue same =>
        cases asked
        exact .stays same
      case isFalse apart =>
        obtain ⟨⟨reason | _ | cells, other⟩, queried, asked⟩ := Option.bind_eq_some_iff.mp asked
        · cases asked
          exact .refused apart queried
        · cases asked
          exact .nowhere apart queried
        · dsimp only at asked
          split at asked
          case h_1 => cases asked
          case h_2 told =>
            cases asked
            exact .found apart queried told

theorem leaves_findWay {first last : Position} {answer : GridMap.Answer (List Position)}
    (asked : n.findWay first last = some (answer, after))
    : n.Leaves (Reply.way answer).fault? after := by
  cases wayReply_findWay asked with
  | outside | stays => exact .refl n
  | refused _ queried => exact leaves_queryCells queried
  | nowhere _ queried => exact leaves_queryCells queried
  | found _ queried => exact leaves_queryCells queried

/-- No query changes anything but the ends of queries, the latest path, and the buffers. -/
theorem leaves_ask {q : Query} {reply : Reply} (asked : n.ask q = some (reply, after))
    : n.Leaves reply.fault? after := by
  cases q with
  | cells start goal | rawCells start goal =>
      obtain ⟨_, found, asked⟩ := Option.map_eq_some_iff.mp asked
      cases asked
      exact leaves_queryCells found
  | way start goal =>
      obtain ⟨_, found, asked⟩ := Option.map_eq_some_iff.mp asked
      cases asked
      exact leaves_findWay found

-----------------------------------------------------------------------------------------
-- What a query replies
-----------------------------------------------------------------------------------------

section

variable {other : Navigator} (alike : n.toGridMap.Undisturbed other.toGridMap)

include alike

theorem cells_undisturbed (smoothing : Bool) (start goal : Point)
    : (n.queryCells smoothing start goal).map Prod.fst
      = (other.queryCells smoothing start goal).map Prod.fst := by
  have forgotten := queryCells_fst alike smoothing start goal
  rw [← queryCells_eq, ← queryCells_eq, Option.map_map, Option.map_map] at forgotten
  exact forgotten

theorem way_undisturbed (first last : Position)
    : (n.findWay first last).map Prod.fst = (other.findWay first last).map Prod.fst := by
  have located : ∀ a, n.locate a = other.locate a := by
    obtain ⟨_, _, _, same⟩ := alike
    intro a
    rw [same]
    rfl
  rw [findWay, findWay]
  simp only [located]
  rcases other.locate first with _ | p
  · rfl
  · rcases other.locate last with _ | q
    · rfl
    · dsimp only
      split
      · rfl
      · have answers := cells_undisturbed alike true p q
        rcases asked : n.queryCells true p q with _ | ⟨answer, after⟩
        · rw [asked] at answers
          rw [Option.map_eq_none_iff.mp answers.symm]
        · rw [asked] at answers
          obtain ⟨⟨found, otherAfter⟩, otherAsked, same⟩ := Option.map_eq_some_iff.mp answers.symm
          obtain rfl : found = answer := same
          have left := (leaves_queryCells asked).map
          have otherLeft := (leaves_queryCells otherAsked).map
          have ways := GridMap.Undisturbed.way_eq (left.symm.trans (alike.trans otherLeft))
          rw [otherAsked]
          simp only [Option.bind_eq_bind, Option.bind_some]
          obtain _ | _ | cells := found
          · rfl
          · rfl
          · simp only [ways]
            cases Terrain.way _ _ cells first last <;> rfl

/-- What a map replies depends on nothing but what is undisturbed by queries. -/
theorem ask_undisturbed (q : Query) : (n.ask q).map Prod.fst = (other.ask q).map Prod.fst := by
  cases q with
  | cells start goal =>
      have same : n.settings = other.settings := by
        obtain ⟨_, _, _, same⟩ := alike
        rw [same]
      have answers := cells_undisturbed alike n.settings.smooth start goal
      have replies := congrArg (Option.map Reply.cells) answers
      rw [Option.map_map, Option.map_map] at replies
      rw [ask, ask, findCells, findCells, ← same, Option.map_map, Option.map_map]
      exact replies
  | rawCells start goal =>
      have replies := congrArg (Option.map Reply.cells) (cells_undisturbed alike false start goal)
      rw [Option.map_map, Option.map_map] at replies
      rw [ask, ask, findRawCells, findRawCells, Option.map_map, Option.map_map]
      exact replies
  | way start goal =>
      have replies := congrArg (Option.map Reply.way) (way_undisturbed alike start goal)
      rw [Option.map_map, Option.map_map] at replies
      rw [ask, ask, Option.map_map, Option.map_map]
      exact replies

end

end Navigator

end Wayfinding
