import Wayfinding.Proofs.Queries.Rejection
import Wayfinding.Proofs.Smoothing

/-! Smoothed answers beside raw ones. A query that smooths makes the same search as one that does
not, so both come to the same verdict, and a smoothed path is a part of the raw one that costs no
more.
-/

namespace Wayfinding

-----------------------------------------------------------------------------------------
-- Costs between the ends of a path
-----------------------------------------------------------------------------------------

/-- A path costs no less than going straight from its first cell to its last one, which are part of
it.
-/
theorem octile_le_pathCost {path : List Point} {a b : Point} (first : path.head? = some a)
    (last : path.getLast? = some b)
    : octile a b ≤ pathCost path := by
  obtain ⟨rest, rfl⟩ := List.head?_eq_some_iff.mp first
  rcases List.mem_cons.mp (List.mem_of_getLast? last) with rfl | member
  · rw [octile_self]
    exact pathCost_nonneg _
  · have part := pathCost_cons_le_of_sublist (List.singleton_sublist.mpr member) a
    simpa [pathCost] using part

namespace GridMap

variable {m other : GridMap} {start goal : Point}

-----------------------------------------------------------------------------------------
-- The same search
-----------------------------------------------------------------------------------------

/-- The route between two cells has nothing to do with what queries leave behind. -/
theorem Undisturbed.route_eq (alike : m.Undisturbed other) (start goal : Point)
    : other.route start goal = m.route start goal := by
  obtain ⟨first, last, path, rfl⟩ := alike
  let after : GridMap := { m with start := first, goal := last, latestPath := path }
  have connects : after.mayConnect start goal = m.mayConnect start goal := by
    unfold mayConnect
    cases m.components <;> rfl
  have search : after.terrain.search start goal = m.terrain.search start goal := rfl
  change after.route start goal = m.route start goal
  unfold route
  rw [connects, search]
  obtain _ | _ | _ | _ := m.terrain.search start goal <;> rfl

/-- Nor has the answer to a query. -/
theorem Undisturbed.queryCells_fst (alike : m.Undisturbed other) (smooth : Bool)
    (start goal : Point)
    : (other.queryCells smooth start goal).1 = (m.queryCells smooth start goal).1 := by
  rw [GridMap.queryCells_fst, GridMap.queryCells_fst, alike.checkEnds_fst, alike.route_eq]
  obtain ⟨_, _, _, rfl⟩ := alike
  rfl

-----------------------------------------------------------------------------------------
-- The same verdict
-----------------------------------------------------------------------------------------

/-- How a smoothed answer to a query stands to the raw one: both are the same fault, both say that
there is no path, or the smoothed path is part of the raw one between the same ends, and its cost
lies between that of going straight and that of the raw path. All three costs fit their words.
-/
inductive Answer.Smoothed (start goal : Point)
    : Answer (List Point) → Answer (List Point) → Prop
  | fault (reason : MapFault) : Smoothed start goal (.error reason) (.error reason)
  | nowhere : Smoothed start goal (.ok none) (.ok none)
  | path {raw smoothed : List Point} {straight cost rawCost : Int} (part : smoothed.Sublist raw)
    (rawEnds : raw.head? = some start ∧ raw.getLast? = some goal)
    (ends : smoothed.head? = some start ∧ smoothed.getLast? = some goal)
    (straights : octile? start goal = some straight) (costs : pathCost? smoothed = some cost)
    (rawCosts : pathCost? raw = some rawCost) (above : straight ≤ cost) (below : cost ≤ rawCost)
    : Smoothed start goal (.ok (some raw)) (.ok (some smoothed))

/-- A part of a path with the ends of the path is a smoothed answer beside it. -/
theorem Answer.smoothed_of_part {raw smoothed : List Point} (part : smoothed.Sublist raw)
    (rawEnds : raw.head? = some start ∧ raw.getLast? = some goal)
    (ends : smoothed.head? = some start ∧ smoothed.getLast? = some goal)
    (cheaper : pathCost smoothed ≤ pathCost raw) (small : pathCost raw ≤ 2147483647)
    : Answer.Smoothed start goal (.ok (some raw)) (.ok (some smoothed)) := by
  have straight := octile_nonneg start goal
  have above := octile_le_pathCost ends.1 ends.2
  refine .path part rawEnds ends (int32?_of_fits ?_) (int32?_of_fits ?_) (int32?_of_fits ?_) above
    cheaper <;>
  · constructor <;> omega

/-- A query that smooths, if the settings say so, and one that does not come to the same verdict on
maps that differ at most in what queries have left behind; a smoothed path is part of the raw path,
has its ends and costs no more.
-/
theorem findCells_smoothed (fits : m.extent.CostsFit) (alike : m.Undisturbed other)
    (start goal : Point)
    : Answer.Smoothed start goal (m.findRawCells start goal).1 (other.findCells start goal).1 := by
  rw [findCells, alike.queryCells_fst, findRawCells, queryCells_fst, queryCells_fst]
  rcases checked : m.checkEnds start goal with ⟨reason | _, after⟩
  · exact .fault reason
  · obtain ⟨free, target⟩ := walkable_of_checkEnds checked
    simp only [Except.bind]
    rcases found : m.route start goal with reason | _ | raw
    · exact .fault reason
    · exact .nowhere
    · obtain ⟨c, trail, _, small, _⟩ := trail_of_route fits free target found
      rw [← trail.pathCost_eq] at small
      have ends := And.intro trail.head? trail.getLast?
      cases other.settings.smooth with
      | false => exact Answer.smoothed_of_part (.refl raw) ends ends (Int.le_refl _) small
      | true =>
          refine Answer.smoothed_of_part (shorten_sublist _ raw) ends ?_ (pathCost_shorten_le _ raw)
            small
          exact ⟨(shorten_head? _ raw).trans ends.1, (shorten_getLast? _ raw).trans ends.2⟩

/-- A raw path through the squeeze, and the smoothed one that the next query gives. -/
theorem findCells_smoothed_squeeze
    : squeeze.extent.CostsFit
      ∧ squeeze.Undisturbed (squeeze.findRawCells ⟨0, 0⟩ ⟨3, 1⟩).2
      ∧ Answer.Smoothed ⟨0, 0⟩ ⟨3, 1⟩
          (.ok (some [⟨0, 0⟩, ⟨0, 1⟩, ⟨1, 2⟩, ⟨2, 1⟩, ⟨3, 1⟩]))
          (.ok (some [⟨0, 0⟩, ⟨0, 1⟩, ⟨1, 2⟩, ⟨3, 1⟩])) := by
  have fits : squeeze.extent.CostsFit := by decide
  have alike := squeeze.undisturbed_queryCells false ⟨0, 0⟩ ⟨3, 1⟩
  have smoothed := findCells_smoothed fits alike ⟨0, 0⟩ ⟨3, 1⟩
  have raw : (squeeze.findRawCells ⟨0, 0⟩ ⟨3, 1⟩).1
      = .ok (some [⟨0, 0⟩, ⟨0, 1⟩, ⟨1, 2⟩, ⟨2, 1⟩, ⟨3, 1⟩]) := by decide +kernel
  have next : ((squeeze.queryCells false ⟨0, 0⟩ ⟨3, 1⟩).2.findCells ⟨0, 0⟩ ⟨3, 1⟩).1
      = .ok (some [⟨0, 0⟩, ⟨0, 1⟩, ⟨1, 2⟩, ⟨3, 1⟩]) := by decide +kernel
  rw [raw, next] at smoothed
  exact ⟨fits, alike, smoothed⟩

end GridMap

end Wayfinding
