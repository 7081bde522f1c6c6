import Wayfinding.Proofs.Search.Frontier

/-! The rounds of a search. Until a jump sees the goal, every round leaves a thorough search; from
then on the goal waits with a cheapest way. So the goal comes out of the open set with the least
cost, and when the open set runs out there is no way at all.
-/

namespace Wayfinding.Terrain

variable {t : Terrain} {start goal x : Point} {done : List Node} {n : Node}
  {s s' : Search t.extent} {c : Int}

/-- The goal waits with a cheapest way. -/
def Ready (t : Terrain) (start goal : Point) (s : Search t.extent) : Prop :=
  ∃ n, s.Waits n ∧ n.cell = goal ∧ t.Cheapest start goal n.cost

/-- A search on its course: it has not closed the goal, and either it is thorough or the goal waits
with a cheapest way.
-/
structure OnCourse (t : Terrain) (start goal : Point) (done : List Node) (s : Search t.extent)
    : Prop where
  ledger : t.Ledger start goal done s
  unreached : goal ∉ done.map Node.cell
  course : t.Thorough start goal done s ∨ t.Ready start goal s

/-- The estimate of the least node bounds that of every cell ahead of the open set. -/
theorem Leads.least_le (leads : t.Leads s x c) (least : s.Least goal n)
    : n.cost + octile n.cell goal ≤ c + octile x goal := by
  obtain ⟨m, r, waits, walk, cost⟩ := leads
  have estimate := least.le m waits
  have fall := walk.octile_le goal
  omega

/-- Until the goal is closed, the open set of a thorough search is ahead of it. -/
theorem Thorough.leads_goal (thorough : t.Thorough start goal done s)
    (ledger : t.Ledger start goal done s) (unreached : goal ∉ done.map Node.cell)
    (cheapest : t.Cheapest start goal c)
    : t.Leads s goal c := by
  rcases thorough.frontier ledger cheapest with leads | closed | ⟨f, _, on⟩
  · exact leads
  · exact absurd closed unreached
  · simp [stopsAt] at on

/-- When the least node of a thorough search is closed, the cheapest ways on from it are covered:
if the open set is ahead of its cell, the node itself is cheapest.
-/
theorem Thorough.departs_least (thorough : t.Thorough start goal done s)
    (ledger : t.Ledger start goal done s) (least : s.Least goal n)
    (cheapest : t.Cheapest start n.cell c)
    : ∃ heading, t.Departs start goal (n :: done) n.cell heading c := by
  have sound := ledger.waiting n least.waits
  rcases thorough.frontier ledger cheapest with leads | closed | ⟨f, covered, on⟩
  · have above := leads.least_le least
    have below := cheapest.2 sound.walk
    obtain rfl : n.cost = c := by omega
    exact ⟨n.heading, departs_of_mem List.mem_cons_self sound.arrives⟩
  · exact absurd closed (ledger.not_mem_of_waits least.waits)
  · exact ⟨some f, (covered.departs ledger on).cons n⟩

/-- What the latest round has done: closed the least node, kept all other offers, and closed or
offered all stops of its jumps.
-/
structure Round (t : Terrain) (goal : Point) (done : List Node) (s : Search t.extent) (n : Node)
    (s' : Search t.extent) : Prop where
  least : s.Least goal n
  offers : ∀ p c, p ≠ n.cell → s.Offers p c → s'.Offers p c
  stops : ∀ stop ∈ (t.jumpsOf goal n).stops,
    stop.cell ∈ (n :: done).map Node.cell
      ∨ s'.Offers stop.cell (n.cost + octile n.cell stop.cell)

/-- A round that does not see the goal leaves a thorough search. -/
theorem Thorough.round (thorough : t.Thorough start goal done s)
    (ledger : t.Ledger start goal done s) (round : t.Round goal done s n s')
    (unseen : (t.jumpsOf goal n).goal = false)
    : t.Thorough start goal (n :: done) s' := by
  constructor
  · intro m hm
    rcases List.mem_cons.mp hm with rfl | old
    · exact unseen
    · exact thorough.unseen m old
  · intro m hm stop hs
    rcases List.mem_cons.mp hm with rfl | old
    · exact round.stops stop hs
    · rcases thorough.swept m old stop hs with closed | offer
      · exact Or.inl (List.mem_cons_of_mem _ closed)
      · by_cases same : stop.cell = n.cell
        · exact Or.inl (by simp [same])
        · exact Or.inr (round.offers _ _ same offer)
  · intro m hm c cheapest
    rcases List.mem_cons.mp hm with rfl | old
    · exact thorough.departs_least ledger round.least cheapest
    · obtain ⟨heading, departs⟩ := thorough.departs m old c cheapest
      exact ⟨heading, departs.cons n⟩

/-- After a round that sees the goal, the goal waits with a cheapest way: the estimate of the node
that saw it is the cost of the goal, and no way costs less than that.
-/
theorem Thorough.ready (thorough : t.Thorough start goal done s)
    (ledger : t.Ledger start goal done s) (ledger' : t.Ledger start goal (n :: done) s')
    (round : t.Round goal done s n s') (unreached : goal ∉ (n :: done).map Node.cell)
    (seen : (t.jumpsOf goal n).goal = true)
    : t.Ready start goal s' := by
  obtain ⟨stop, member, rfl⟩ := (t.jumps_sweep goal n.cell _).goal seen
  rcases round.stops stop member with closed | ⟨m, waits, same, cost⟩
  · exact absurd closed unreached
  · have walk := (ledger'.waiting m waits).walk
    rw [same] at walk
    obtain ⟨least, cheapest⟩ := walk.exists_cheapest
    have unreachedBefore : stop.cell ∉ done.map Node.cell :=
      fun closed => unreached (List.mem_cons_of_mem _ closed)
    -- The estimate bounds the goal from both sides: no way over the open set is cheaper.
    have bound := (thorough.leads_goal ledger unreachedBefore cheapest).least_le round.least
    rw [octile_self] at bound
    exact ⟨m, waits, same, cheapest.of_le walk (by omega)⟩

/-- A cheapest way to the goal is kept while other nodes are closed. -/
theorem Ready.round (ready : t.Ready start goal s) (ledger' : t.Ledger start goal (n :: done) s')
    (round : t.Round goal done s n s') (other : goal ≠ n.cell)
    : t.Ready start goal s' := by
  obtain ⟨m, waits, rfl, cheapest⟩ := ready
  obtain ⟨k, waits', same, cost⟩ := round.offers _ _ other ⟨m, waits, rfl, Int.le_refl _⟩
  have walk := (ledger'.waiting k waits').walk
  rw [same] at walk
  exact ⟨k, waits', same, cheapest.of_le walk cost⟩

/-- A search on its course stays there while it closes other cells than the goal. -/
theorem OnCourse.round (onCourse : t.OnCourse start goal done s)
    (ledger' : t.Ledger start goal (n :: done) s') (round : t.Round goal done s n s')
    (other : goal ≠ n.cell)
    : t.OnCourse start goal (n :: done) s' := by
  have unreached : goal ∉ (n :: done).map Node.cell := by
    simpa [other] using onCourse.unreached
  refine ⟨ledger', unreached, ?_⟩
  rcases onCourse.course with thorough | ready
  · cases seen : (t.jumpsOf goal n).goal with
    | false => exact Or.inl (thorough.round onCourse.ledger round seen)
    | true => exact Or.inr (thorough.ready onCourse.ledger ledger' round unreached seen)
  · exact Or.inr (ready.round ledger' round other)

/-- The goal comes out of the open set of a search on its course with a cheapest way. -/
theorem OnCourse.cheapest_of_least (onCourse : t.OnCourse start n.cell done s)
    (least : s.Least n.cell n)
    : t.Cheapest start n.cell n.cost := by
  have walk := (onCourse.ledger.waiting n least.waits).walk
  rcases onCourse.course with thorough | ⟨m, waits, same, cheapest⟩
  · obtain ⟨c, cheapest⟩ := walk.exists_cheapest
    have leads := thorough.leads_goal onCourse.ledger onCourse.unreached cheapest
    have bound := leads.least_le least
    exact cheapest.of_le walk (by omega)
  · have bound := least.le m waits
    rw [same] at bound
    exact cheapest.of_le walk (by omega)

/-- When the open set of a search on its course has run out, there is no way to the goal. -/
theorem OnCourse.no_walk (onCourse : t.OnCourse start goal done s) (nothing : ∀ n, ¬ s.Waits n)
    : ¬ t.Walk start goal c := by
  intro walk
  rcases onCourse.course with thorough | ⟨n, waits, _⟩
  · obtain ⟨least, cheapest⟩ := walk.exists_cheapest
    obtain ⟨n, _, waits, _⟩ := thorough.leads_goal onCourse.ledger onCourse.unreached cheapest
    exact nothing n waits
  · exact nothing n waits

/-- How a search ends that does not fail: its open set has run out and there is no way, or the goal
has come out of it with a cheapest way.
-/
inductive Ends (t : Terrain) (start goal : Point) : Except MapFault (Progress t.extent) → Prop
  | nowhere (none : ¬ ∃ c, t.Walk start goal c) : t.Ends start goal (.ok .exhausted)
  | found {s : Search t.extent} {x : Entry Int Node} {heap : FibonacciHeap Int Node}
    {done : List Node} (popped : s.openSet.pop? = some (x, heap)) (cell : x.value.cell = goal)
    (cheapest : t.Cheapest start goal x.value.cost)
    (ledger : t.Ledger start goal (x.value :: done) (s.close heap x.value))
    : t.Ends start goal (.ok (.reached x.value (s.close heap x.value)))

/-- A search ends because the goal comes out of its open set, and this is the cost of the way to it.
-/
def PopsGoal (t : Terrain) (start goal : Point) (c : Int) : Prop :=
  ∃ (s : Search t.extent) (x : Entry Int Node) (heap : FibonacciHeap Int Node),
    s.openSet.pop? = some (x, heap)
    ∧ x.value.cell = goal
    ∧ x.value.cost = c
    ∧ t.search start goal = .ok (.reached x.value (s.close heap x.value))

/-- A round does not fail as long as the costs fit: it ends the search, or closes another cell than
the goal and stays on its course.
-/
theorem OnCourse.advance (onCourse : t.OnCourse start goal done s) (fits : t.extent.CostsFit)
    (target : t.extent.contains goal = true)
    : t.Ends start goal (t.advance goal s)
      ∨ ∃ n s', t.advance goal s = .ok (.underway s') ∧ t.OnCourse start goal (n :: done) s' := by
  have ledger := onCourse.ledger
  rw [Terrain.advance]
  cases popped : s.openSet.pop? with
  | none =>
      refine Or.inl (.nowhere ?_)
      intro way
      obtain ⟨c, walk⟩ := way
      exact onCourse.no_walk (Search.not_waits_of_pop?_eq_none popped) walk
  | some result =>
      obtain ⟨x, heap⟩ := result
      have least := ledger.consistent.least popped
      have closed := ledger.close popped
      obtain ⟨_, waits⟩ := ledger.consistent.close popped
      by_cases reached : x.value.cell = goal
      · subst reached
        apply Or.inl
        simp only [if_true]
        exact .found popped rfl (onCourse.cheapest_of_least least) closed
      · obtain ⟨s', expanded, ledger', keeps, stops⟩ := closed.expand fits target
        have round : t.Round goal done s x.value s' := by
          refine ⟨least, ?_, stops⟩
          intro p c other offer
          obtain ⟨m, waitsBefore, rfl, cost⟩ := offer
          exact keeps.offers _ _ ⟨m, (waits m).mpr ⟨waitsBefore, other⟩, rfl, cost⟩
        refine Or.inr ⟨x.value, s', ?_, onCourse.round ledger' round (Ne.symm reached)⟩
        simp only [if_neg reached, expanded]
        rfl

/-- A search that has closed some cells ends within as many rounds as there are other cells and
one more, by induction over the rounds.
-/
theorem OnCourse.rounds (onCourse : t.OnCourse start goal done s) (fits : t.extent.CostsFit)
    (target : t.extent.contains goal = true) {k : Nat} (enough : t.extent.area < done.length + k)
    : t.Ends start goal (t.rounds goal k s) := by
  induction k generalizing s done with
  | zero =>
      have room := onCourse.ledger.length_lt target onCourse.unreached
      omega
  | succ k ih =>
      rw [Terrain.rounds]
      rcases onCourse.advance fits target with ends | ⟨n, s', next, further⟩
      · generalize t.advance goal s = outcome at ends
        cases ends with
        | nowhere none => exact .nowhere none
        | found popped cell cheapest ledger => exact .found popped cell cheapest ledger
      · rw [next]
        exact ih further (by simp only [List.length_cons]; omega)

/-- A search does not fail as long as the costs fit. -/
theorem search_ends (fits : t.extent.CostsFit) (free : t.walkable start = true)
    (target : t.extent.contains goal = true)
    : t.Ends start goal (t.search start goal) := by
  obtain ⟨s, begun, ledger⟩ := exists_ledger fits free target
  have onCourse : t.OnCourse start goal [] s := by
    refine ⟨ledger, by simp, Or.inl ⟨?_, ?_, ?_⟩⟩
    all_goals simp
  simp only [search, begun]
  exact onCourse.rounds fits target (by simp)

end Wayfinding.Terrain
