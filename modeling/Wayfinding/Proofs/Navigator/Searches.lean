import Wayfinding.Navigator.Search

/-! A search that leaves its state behind is the search of `Checked.Search`: forgetting the state
where a part is refused turns every part of the one into that of the other.
-/

namespace Wayfinding.Checked

variable {e : Extent}

/-- What comes of a part of a search, without the state where it is refused. -/
def Outcome.settled : Outcome e Unit → Except MapFault (State e)
  | (.ok _, s) => .ok s
  | (.error reason, _) => .error (.heap reason)

/-- What comes of a whole search, with the state only where the goal is closed. -/
def Outcome.concluded : Outcome e Bool → Except MapFault (Option (State e))
  | (.ok found, s) => .ok (if found then some s else none)
  | (.error reason, _) => .error (.heap reason)

namespace Buffers

variable (s : State e) (goal : Point) (source : Node) (stop : Stop) (cost total : Int)

theorem discover_settled
    : (discover s source stop cost total).map Outcome.settled
      = Checked.discover s source stop cost total := by
  obtain ⟨openSet, handles, closed, cameFrom⟩ := s
  simp only [discover, Checked.discover]
  cases write cameFrom stop.cell (some source.cell) with
  | none => rfl
  | some cameFrom =>
      simp only [Option.bind_eq_bind, Option.bind_some]
      cases openSet.insert total ⟨stop.cell, cost, some stop.heading⟩ with
      | none => rfl
      | some inserted =>
          obtain ⟨reason | handle, heap⟩ := inserted
          · rfl
          · simp only [Option.bind_some]
            cases write handles stop.cell (some handle) <;> rfl

theorem improve_settled (handle : Nat)
    : (improve s source stop cost total handle).map Outcome.settled
      = Checked.improve s source stop cost total handle := by
  obtain ⟨openSet, handles, closed, cameFrom⟩ := s
  simp only [improve, Checked.improve]
  cases openSet.get? handle with
  | none => rfl
  | some node =>
      dsimp only
      split
      · generalize Arena.decreaseKey _ handle total = decreased
        obtain _ | ⟨reason | _, heap⟩ := decreased
        · rfl
        · rfl
        · simp only [Option.bind_eq_bind, Option.bind_some]
          cases write cameFrom stop.cell (some source.cell) <;> rfl
      · rfl

theorem consider_settled
    : (consider goal source s stop).map Outcome.settled
      = Checked.consider goal source s stop := by
  simp only [consider, Checked.consider, Option.bind_eq_bind, Option.map_bind, Function.comp_def]
  refine Option.bind_congr fun seen _ => ?_
  cases seen with
  | true => rfl
  | false =>
      simp only [Bool.false_eq_true, if_false, Option.map_bind, Function.comp_def]
      refine Option.bind_congr fun run _ => Option.bind_congr fun cost _ => ?_
      refine Option.bind_congr fun rest _ => Option.bind_congr fun total _ => ?_
      refine Option.bind_congr fun waiting _ => ?_
      cases waiting with
      | none => exact discover_settled s source stop cost total
      | some handle => exact improve_settled s source stop cost total handle

/-- The stops are considered in the same way, by induction over them. -/
theorem considerAll_settled (stops : List Stop)
    : (considerAll goal source stops s).map Outcome.settled
      = Checked.considerAll goal source stops s := by
  induction stops generalizing s with
  | nil => rfl
  | cons stop stops ih =>
      have first := consider_settled s goal source stop
      rw [considerAll, Checked.considerAll, ← first]
      obtain _ | ⟨_ | _, s'⟩ := consider goal source s stop
      · rfl
      · rfl
      · exact ih s'

theorem close_eq
    : ((close s).map fun closed => closed.1.map fun node => (node, closed.2))
      = Checked.close s := by
  obtain ⟨openSet, handles, closed, cameFrom⟩ := s
  simp only [close, Checked.close]
  obtain _ | ⟨_ | least, heap⟩ := openSet.pop
  · rfl
  · rfl
  · simp only [Option.bind_eq_bind, Option.bind_some]
    cases write handles least.value.cell none with
    | none => rfl
    | some handles =>
        simp only [Option.bind_some]
        cases write closed least.value.cell true <;> rfl

variable (t : Terrain)

theorem expand_settled (node : Node) (s : State t.extent)
    : (expand t goal node s).map Outcome.settled = Checked.expand t goal node s := by
  simp only [expand, Checked.expand]
  cases stops t goal node with
  | none => rfl
  | some stops => exact considerAll_settled s goal node stops

/-- The rounds conclude in the same way, by induction over their number. -/
theorem rounds_concluded (k : Nat) (s : State t.extent)
    : (rounds t goal k s).map Outcome.concluded = Checked.rounds t goal k s := by
  induction k generalizing s with
  | zero => rfl
  | succ k ih =>
      rw [rounds, Checked.rounds, ← close_eq s]
      obtain _ | ⟨_ | node, s'⟩ := close s
      · rfl
      · rfl
      · simp only [Option.bind_eq_bind, Option.map_some, Option.bind_some]
        split
        · rfl
        · rw [← expand_settled]
          obtain _ | ⟨_ | _, s''⟩ := expand t goal node s'
          · rfl
          · rfl
          · exact ih s''

end Buffers

end Wayfinding.Checked
