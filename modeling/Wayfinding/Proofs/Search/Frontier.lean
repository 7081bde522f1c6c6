import Wayfinding.Proofs.Search.Detours
import Wayfinding.Proofs.Search.Ledger

/-! Why a search finds the cheapest way although it leaves out most directions. Every cell that
can be reached at a least cost is ahead of the open set, or closed, or passed by a jump of a closed
node that did not have to stop there. A closed node need not have the least cost of its cell, but
all cheapest ways on from the cell are then covered by other jumps.
-/

namespace Wayfinding.Terrain

variable {t : Terrain} {start goal p q x : Point} {done : List Node} {n m : Node}
  {s s' : Search t.extent} {d f g : Direction} {heading : Option Direction} {c r : Int}

/-- The jumps that a search makes from a node. -/
def jumpsOf (t : Terrain) (goal : Point) (n : Node) : Findings :=
  t.jumps goal n.cell (t.directions n.cell n.heading)

/-- A way over a waiting node leads to the cell at this cost or below. -/
def Leads (t : Terrain) (s : Search t.extent) (x : Point) (c : Int) : Prop :=
  ∃ n r, s.Waits n ∧ t.Walk n.cell x r ∧ n.cost + r ≤ c

/-- A jump of a closed node gets to the cell in direction `f` at this cost. -/
def Covered (t : Terrain) (goal : Point) (done : List Node) (x : Point) (f : Direction) (c : Int)
    : Prop :=
  ∃ n ∈ done, ∃ d ∈ t.directions n.cell n.heading, ∃ r,
    t.Sweep goal n.cell d x f r ∧ c = n.cost + r

/-- With this heading at the cell, all directions to go on with are covered. -/
structure Departs (t : Terrain) (start goal : Point) (done : List Node) (x : Point)
    (heading : Option Direction) (c : Int) : Prop where
  arrives : t.Arrives start x heading c
  covers : ∀ g ∈ t.directions x heading, t.walkable (x + g.delta) = true
    → ∃ f, t.Covered goal done (x + g.delta) f (c + g.cost)

/-- No closed node has seen the goal, the stops of all closed nodes are closed or wait with a way
as cheap, and the cheapest ways on from all closed cells are covered.
-/
structure Thorough (t : Terrain) (start goal : Point) (done : List Node) (s : Search t.extent)
    : Prop where
  unseen : ∀ n ∈ done, (t.jumpsOf goal n).goal = false
  swept : ∀ n ∈ done, ∀ stop ∈ (t.jumpsOf goal n).stops,
    stop.cell ∈ done.map Node.cell ∨ s.Offers stop.cell (n.cost + octile n.cell stop.cell)
  departs : ∀ n ∈ done, ∀ c, t.Cheapest start n.cell c
    → ∃ heading, t.Departs start goal done n.cell heading c

/-- A search has got hold of the cell: it is ahead of the open set, or closed, or passed. -/
def Held (t : Terrain) (goal : Point) (done : List Node) (s : Search t.extent) (x : Point)
    (c : Int) : Prop :=
  t.Leads s x c
    ∨ x ∈ done.map Node.cell
    ∨ ∃ f, t.Covered goal done x f c ∧ t.stopsAt goal f x = false

theorem Leads.step (leads : t.Leads s q r) (g : Direction)
    (free : t.walkable (q + g.delta) = true)
    : t.Leads s (q + g.delta) (r + g.cost) := by
  obtain ⟨n, k, waits, walk, cost⟩ := leads
  exact ⟨n, k + g.cost, waits, walk.step g free, by omega⟩

theorem leads_of_offers (offer : s.Offers x c) (free : t.walkable x = true) : t.Leads s x c := by
  obtain ⟨n, waits, rfl, cost⟩ := offer
  exact ⟨n, 0, waits, .here free, by omega⟩

theorem Covered.cons (covered : t.Covered goal done x f c) (m : Node)
    : t.Covered goal (m :: done) x f c := by
  obtain ⟨n, member, rest⟩ := covered
  exact ⟨n, List.mem_cons_of_mem m member, rest⟩

theorem Departs.cons (departs : t.Departs start goal done x heading c) (m : Node)
    : t.Departs start goal (m :: done) x heading c := by
  refine ⟨departs.arrives, fun g member free => ?_⟩
  obtain ⟨f, covered⟩ := departs.covers g member free
  exact ⟨f, covered.cons m⟩

/-- A closed node covers its own directions. -/
theorem departs_of_mem (member : n ∈ done) (arrives : t.Arrives start n.cell n.heading n.cost)
    : t.Departs start goal done n.cell n.heading n.cost :=
  ⟨arrives, fun g natural free => ⟨g, n, member, g, natural, g.cost, .first free, rfl⟩⟩

/-- A jump that passes a cell covers the ways on from there. -/
theorem Covered.departs (ledger : t.Ledger start goal done s) (covered : t.Covered goal done x f c)
    (on : t.stopsAt goal f x = false)
    : t.Departs start goal done x (some f) c := by
  obtain ⟨n, member, d, direction, r, sweep, rfl⟩ := covered
  obtain ⟨_, sound⟩ := ledger.recorded.sound member
  constructor
  · intro _ h
    cases h
    obtain ⟨y, k, cell, cost, walk⟩ := sweep.last_step sound.walk.walkable
    exact ⟨y, n.cost + k, cell, by omega, sound.walk.trans walk⟩
  · intro g member' free
    have follows := (directions_of_not_stopsAt on).mp member'
    refine ⟨g, n, member, d, direction, r + g.cost, sweep.next on follows free, ?_⟩
    omega

/-- A search has got hold of every cell that it covers. -/
theorem Thorough.held_of_covered (thorough : t.Thorough start goal done s)
    (ledger : t.Ledger start goal done s) (covered : t.Covered goal done x f c)
    : t.Held goal done s x c := by
  cases stop : t.stopsAt goal f x with
  | false => exact Or.inr (Or.inr ⟨f, covered, stop⟩)
  | true =>
      obtain ⟨n, member, d, direction, r, sweep, rfl⟩ := covered
      obtain ⟨_, sound⟩ := ledger.recorded.sound member
      have free := sound.walk.walkable
      obtain ⟨unseen, part⟩ := jump_within_jumps direction (thorough.unseen n member)
      have found := part (sweep.mem_stops stop unseen)
      rcases thorough.swept n member _ found with closed | offer
      · exact Or.inr (Or.inl closed)
      · rw [← sweep.cost_eq free] at offer
        exact Or.inl (leads_of_offers offer (sweep.walk free).walkable)

/-- From a cell that a search has got hold of, either the open set is ahead or the ways on are
covered.
-/
theorem Thorough.leads_or_departs (thorough : t.Thorough start goal done s)
    (ledger : t.Ledger start goal done s) (held : t.Held goal done s x c)
    (cheapest : t.Cheapest start x c)
    : t.Leads s x c ∨ ∃ heading, t.Departs start goal done x heading c := by
  rcases held with leads | closed | ⟨f, covered, on⟩
  · exact Or.inl leads
  · obtain ⟨n, member, rfl⟩ := List.mem_map.mp closed
    exact Or.inr (thorough.departs n member c cheapest)
  · exact Or.inr ⟨some f, covered.departs ledger on⟩

/-- A walk at this cost ends with a step along an axis. -/
def EndsAlongAxis (t : Terrain) (start x : Point) (c : Int) : Prop :=
  ∃ (y : Point) (d : Direction) (k : Int),
    d.diagonal = false ∧ x = y + d.delta ∧ c = k + d.cost ∧ t.Walk start y k

/-- The last cell before a cheapest one is a cheapest one. -/
theorem Cheapest.of_step (h : t.Cheapest start (q + g.delta) (r + g.cost))
    (walk : t.Walk start q r)
    : t.Cheapest start q r := by
  refine ⟨walk, fun other hw => ?_⟩
  have longer := h.2 (Walk.step hw g h.1.walkable)
  omega

/-- A step onto a cheapest cell that is left out after a run was a diagonal one after one along an
axis, and it can be taken first: the direction of the run is then the last one.
-/
theorem Departs.swap (departs : t.Departs start goal done q heading r)
    (cheapest : t.Cheapest start (q + g.delta) (r + g.cost))
    (pruned : g ∉ t.directions q heading)
    : g.diagonal = true ∧ t.EndsAlongAxis start (q + g.delta) (r + g.cost) := by
  cases heading with
  | none => exact absurd (t.mem_directions_none q g) pruned
  | some d =>
      obtain ⟨y, k, rfl, rfl, walk⟩ := departs.arrives d rfl
      have free := cheapest.1.walkable
      rcases shortcut_or_swap walk.walkable free pruned with
        ⟨c, less, shorter⟩ | ⟨axis, diagonal, side⟩
      · have longer := cheapest.2 (walk.trans shorter)
        omega
      · refine ⟨diagonal, y + g.delta, d, k + g.cost, axis, ?_, by omega, walk.step g side⟩
        rw [Point.add_assoc, Point.add_comm d.delta, ← Point.add_assoc]

/-- One step beyond a cell that a search has got hold of: it has got hold of the next one too,
unless the step can be swapped with the one before.
-/
private theorem Thorough.held_step (thorough : t.Thorough start goal done s)
    (ledger : t.Ledger start goal done s) (held : t.Held goal done s q r)
    (cheapest : t.Cheapest start (q + g.delta) (r + g.cost)) (walk : t.Walk start q r)
    : t.Held goal done s (q + g.delta) (r + g.cost)
      ∨ g.diagonal = true ∧ t.EndsAlongAxis start (q + g.delta) (r + g.cost) := by
  have free := cheapest.1.walkable
  rcases thorough.leads_or_departs ledger held (cheapest.of_step walk) with
    leads | ⟨heading, departs⟩
  · exact Or.inl (Or.inl (leads.step g free))
  · by_cases member : g ∈ t.directions q heading
    · obtain ⟨f, covered⟩ := departs.covers g member free
      exact Or.inl (thorough.held_of_covered ledger covered)
    · exact Or.inr (departs.swap cheapest member)

/-- The frontier: a search has got hold of every cell that can be reached, by induction over the
least cost. A last step that is left out can be swapped with the one before, and then the step
along the axis, which comes last, is not left out.
-/
theorem Thorough.frontier (thorough : t.Thorough start goal done s)
    (ledger : t.Ledger start goal done s) (cheapest : t.Cheapest start x c)
    : t.Held goal done s x c := by
  generalize size : c.toNat = n
  induction n using Nat.strongRecOn generalizing x c with
  | ind n ih =>
      have before {q : Point} {g : Direction} {r : Int}
          (cheapest : t.Cheapest start (q + g.delta) (r + g.cost)) (walk : t.Walk start q r)
          (least : r + g.cost = c)
          : t.Held goal done s (q + g.delta) (r + g.cost)
            ∨ g.diagonal = true ∧ t.EndsAlongAxis start (q + g.delta) (r + g.cost) := by
        have positive := g.cost_pos
        have nonneg := walk.cost_nonneg
        have held := ih r.toNat (by omega) (cheapest.of_step walk) rfl
        exact thorough.held_step ledger held cheapest walk
      rcases cheapest.last_step with ⟨rfl, rfl⟩ | ⟨q, g, r, rfl, rfl, first⟩
      · rcases ledger.begun with root | closed
        · exact Or.inl ⟨_, 0, root, cheapest.1, Int.le_refl 0⟩
        · exact Or.inr (Or.inl closed)
      · rcases before cheapest first.1 rfl with held | ⟨_, y, d, k, axis, cell, cost, walk⟩
        · exact held
        · -- The other walk ends along an axis, and such a step cannot be left out once more.
          rw [cell, cost] at cheapest ⊢
          rcases before cheapest walk cost.symm with held | ⟨diagonal, _⟩
          · exact held
          · rw [axis] at diagonal
            cases diagonal

end Wayfinding.Terrain
