import Wayfinding.Proofs.Navigator.Lineages

/-! Queries between cells of a map in use never break off. As long as the costs fit, a query comes to
an answer, whatever its ends are and whatever the buffers hold, and no fault of the open set and no
overflow is among the answers. At every moment of its search the handles in the buffers name exactly
the elements of the open set.
-/

namespace Wayfinding.Navigator

open Checked

variable {n : Navigator} {start goal : Point} {done : List Node} {ahead : List Stop}
  {c : State n.extent}

/-- At every moment the handles keep track of the open set. -/
theorem Moment.tracks (moment : n.Moment start goal done ahead c) (fits : n.extent.CostsFit)
    (free : n.walkable start = true) (target : n.walkable goal = true)
    : Tracks goal c := by
  obtain ⟨s, follows, ledger, _⟩ := moment.exists_ledger fits free target
  exact follows.tracks ledger.consistent

/-- The query comes to an answer, which is that of the map without buffers and a regular one. -/
def ComesTo (queried : Option (GridMap.Answer (List Point) × Navigator))
    (expected : GridMap.Answer (List Point) × GridMap) : Prop :=
  ∃ answer after,
    queried = some (answer, after) ∧ expected = (answer, after.toGridMap) ∧ answer.Regular

theorem comesTo_queryCells (fits : n.extent.CostsFit) (smoothing : Bool) (start goal : Point)
    : ComesTo (n.queryCells smoothing start goal)
        (n.toGridMap.queryCells smoothing start goal) := by
  obtain ⟨answer, after, asked, same⟩ := n.exists_queryCells fits smoothing start goal
  have regular := GridMap.queryCells_regular fits smoothing start goal
  rw [same] at regular
  exact ⟨answer, after, asked, same, regular⟩

/-- As long as the costs fit, queries between any two points, smoothed or not, stay within their
words and layers and are answered regularly. Whenever a node is about to come out of the open set of
a search and after every jump point that it considers, the handles belong to the elements of the
open set.
-/
theorem findCells_safe (fits : n.extent.CostsFit) (start goal : Point)
    : ComesTo (n.findCells start goal) (n.toGridMap.findCells start goal)
      ∧ ComesTo (n.findRawCells start goal) (n.toGridMap.findRawCells start goal)
      ∧ (n.walkable start = true
          → n.walkable goal = true
          → ∀ done ahead c, n.Moment start goal done ahead c → Tracks goal c) := by
  refine ⟨comesTo_queryCells fits _ start goal, comesTo_queryCells fits _ start goal, ?_⟩
  exact fun free target _ _ _ moment => moment.tracks fits free target

/-- The search that begins in disorder leaves an open set of which it has kept track. -/
theorem findCells_safe_squeeze
    : (disordered GridMap.squeeze).extent.CostsFit
      ∧ ComesTo ((disordered GridMap.squeeze).findCells ⟨0, 0⟩ ⟨3, 0⟩)
          (GridMap.squeeze.findCells ⟨0, 0⟩ ⟨3, 0⟩)
      ∧ ComesTo ((disordered GridMap.squeeze).findRawCells ⟨0, 0⟩ ⟨3, 0⟩)
          (GridMap.squeeze.findRawCells ⟨0, 0⟩ ⟨3, 0⟩)
      ∧ ∃ done c,
          (disordered GridMap.squeeze).Moment ⟨0, 0⟩ ⟨3, 0⟩ done [] c
          ∧ ⟨3, 0⟩ ∈ done.map Node.cell
          ∧ Tracks ⟨3, 0⟩ c := by
  have fits : (disordered GridMap.squeeze).extent.CostsFit := by decide
  have free : (disordered GridMap.squeeze).walkable ⟨0, 0⟩ = true := by decide +kernel
  have target : (disordered GridMap.squeeze).walkable ⟨3, 0⟩ = true := by decide +kernel
  obtain ⟨smooth, raw, tracks⟩ := findCells_safe fits ⟨0, 0⟩ ⟨3, 0⟩
  obtain ⟨c, c', found, done, begun, ended, moment, closed⟩ := exists_moment fits free target
  have seen : (((disordered GridMap.squeeze).reset.initial ⟨0, 0⟩ ⟨3, 0⟩).bind fun first =>
      first.toOption.bind fun c =>
        (Buffers.rounds GridMap.squeeze.terrain ⟨3, 0⟩ 13 c).map fun last => last.1.toOption)
      = some (some true) := by decide +kernel
  rw [begun] at seen
  change (Buffers.rounds (disordered GridMap.squeeze).terrain ⟨3, 0⟩
    ((disordered GridMap.squeeze).extent.area + 1) c).map _ = _ at seen
  rw [ended] at seen
  obtain rfl : found = true := Option.some.inj (Option.some.inj seen)
  exact ⟨fits, smooth, raw, done, c', moment, closed rfl, tracks free target _ _ _ moment⟩

end Wayfinding.Navigator
