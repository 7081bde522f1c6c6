import Wayfinding.Navigator.Search

/-!
Jumps that register each jump point the moment they get to it. To register a stop changes some
state and may be refused, which ends the jump at once. `Proofs.Navigator.Jumps` says that this is
the same as looking for all stops of a jump first and registering them afterwards, and so the same
as the rounds of `Buffers`.
-/

namespace Wayfinding.Checked.Buffers

variable {σ ε : Type}

/-- Goes on with the state that is left behind, unless there is a refusal. -/
def unlessRefused (outcome : Except ε Unit × σ) (next : σ → Option (Except ε Unit × σ))
    : Option (Except ε Unit × σ) :=
  match outcome with
  | (.ok _, s) => next s
  | outcome => some outcome

/-- Registers stops one after the other, up to the first that is refused. -/
def registerAll (register : Stop → σ → Option (Except ε Unit × σ))
    : List Stop → σ → Option (Except ε Unit × σ)
  | [], s => some (.ok (), s)
  | stop :: stops, s => do
      unlessRefused (← register stop s) fun s => registerAll register stops s

/-- The same outcome with an answer, unless there is a refusal. -/
def answer (found : Bool) (outcome : Except ε Unit × σ) : Except ε Bool × σ :=
  (outcome.1.map fun _ => found, outcome.2)

/-- Goes on with the state that is left behind, unless the goal is found or there is a refusal. -/
def unlessFound (outcome : Except ε Bool × σ) (next : σ → Option (Except ε Bool × σ))
    : Option (Except ε Bool × σ) :=
  match outcome with
  | (.ok false, s) => next s
  | outcome => some outcome

variable (t : Terrain) (goal : Point) (register : Stop → σ → Option (Except ε Unit × σ))

/-- The jump from `p` in direction `d`, step by step within a number of steps, and whether it got to
the goal.
-/
def jump : Nat → Point → Direction → σ → Option (Except ε Bool × σ)
  | 0, _, _, _ => none
  | steps + 1, p, d, s => do
      match ← step t p d with
      | none => return (.ok false, s)
      | some q =>
          if q = goal then return answer true (← register ⟨q, d⟩ s)
          else if !(← forced t q d).isEmpty then return answer false (← register ⟨q, d⟩ s)
          else if d.diagonal then
            unlessFound (← jump steps q (← d.turn? 7) s) fun s => do
              unlessFound (← jump steps q (← d.turn? 1) s) fun s => jump steps q d s
          else jump steps q d s

/-- Jumps in several directions, up to the goal. -/
def jumps (p : Point) : List Direction → σ → Option (Except ε Bool × σ)
  | [], s => some (.ok false, s)
  | d :: ds, s => do
      unlessFound (← jump t goal register (2 * t.extent.side + 1) p d s) fun s => jumps p ds s

end Wayfinding.Checked.Buffers
