import Wayfinding.Checked.Search
import Wayfinding.Proofs.Checked.Jumps
import Wayfinding.Proofs.Heap.WellLinked
import Wayfinding.Proofs.Search.Rounds

/-! A search in machine words goes the way of the search on integers as long as the costs fit: it is
in the same state before and after each step, refuses nothing and does not break off. So at every
moment the handles that it keeps name exactly the elements of its open set.
-/

namespace Wayfinding

namespace Checked

open MapFault

-----------------------------------------------------------------------------------------
-- The same state
-----------------------------------------------------------------------------------------

/-- The states are the same but for the slots of the open set. -/
structure State.Follows {e : Extent} (c : State e) (s : Search e) : Prop where
  openSet : c.openSet.Models s.openSet
  handles : c.handles = s.handles
  closed : c.closed = s.closed
  cameFrom : c.cameFrom = s.cameFrom

namespace State

variable {e : Extent} {c : State e} {s s' : Search e} {start goal : Point} {source : Node}
  {stop : Stop} {cost total : Int}

/-- Where the search on integers begins, so does the other. -/
theorem exists_initial (inside : e.contains start = true)
    (begun : Search.initial e start goal = .ok s)
    : ∃ c, initial e start goal = some (.ok c) ∧ c.Follows s := by
  obtain ⟨empty, created, begun⟩ := ofHeap_bind_eq_ok.mp begun
  obtain ⟨estimate, fits, begun⟩ := orOverflow_bind_eq_ok.mp begun
  obtain ⟨handle, inserted, begun⟩ := ofHeap_bind_eq_ok.mp begun
  cases begun
  have positive : 0 < e.area := e.area_pos
  have nothing : FibonacciHeap.empty Int Node e.area = .ok ⟨[], [], 0, 0, e.area⟩ :=
    if_neg (Nat.ne_of_gt positive)
  rw [nothing] at created
  obtain rfl := Except.ok.inj created
  obtain ⟨slots, made⟩ : ∃ slots, Arena.empty Int Node e.area = .ok slots := by
    simp [Arena.empty, Nat.ne_of_gt positive]
  obtain ⟨slots', added, models⟩ := (Arena.models_empty made).insert estimate ⟨start, 0, none⟩
  rw [inserted] at added
  refine ⟨⟨slots', (Layer.fill e none).set start (some handle), .fill e false, .fill e none⟩, ?_,
    models, rfl, rfl, rfl⟩
  simp only [initial, made, octile_eq, fits, added, write_eq _ inside, Option.bind_eq_bind,
    Option.bind_some]
  rfl

theorem Follows.discover (follows : c.Follows s) (inside : e.contains stop.cell = true)
    (discovered : s.discover source stop cost total = .ok s')
    : ∃ c', Checked.discover c source stop cost total = some (.ok c') ∧ c'.Follows s' := by
  obtain ⟨handle, inserted, done⟩ := ofHeap_bind_eq_ok.mp discovered
  cases done
  obtain ⟨slots, added, models⟩ :=
    follows.openSet.insert total ⟨stop.cell, cost, some stop.heading⟩
  rw [inserted] at added
  refine ⟨{ c with
      openSet := slots
      handles := c.handles.set stop.cell (some handle)
      cameFrom := c.cameFrom.set stop.cell (some source.cell) }, ?_, models, ?_, follows.closed, ?_⟩
  · simp only [Checked.discover, added, write_eq _ inside, Option.bind_eq_bind, Option.bind_some]
    rfl
  · rw [follows.handles]
  · rw [follows.cameFrom]

theorem Follows.improve (follows : c.Follows s) (valid : s.openSet.Valid)
    (inside : e.contains stop.cell = true) {handle : Nat}
    (improved : s.improve source stop cost total handle = .ok s')
    : ∃ c', Checked.improve c source stop cost total handle = some (.ok c') ∧ c'.Follows s' := by
  have shown : c.openSet.get? handle = s.openSet.get? handle :=
    congrArg (Option.map Entry.value) (follows.openSet.entry? valid handle)
  rw [Search.improve] at improved
  rw [Checked.improve, shown]
  cases found : s.openSet.get? handle with
  | none => simp [found] at improved
  | some node =>
      simp only [found] at improved ⊢
      by_cases cheaper : cost < node.cost
      · rw [if_pos cheaper] at improved ⊢
        obtain ⟨_, decreased, done⟩ := ofHeap_bind_eq_ok.mp improved
        cases done
        obtain ⟨slots, lowered, models⟩ :=
          (follows.openSet.modify handle _).decreaseKey (valid.modify handle _) handle total
        rw [decreased] at lowered
        refine ⟨{ c with
            openSet := slots
            cameFrom := c.cameFrom.set stop.cell (some source.cell) },
          ?_, models, follows.handles, follows.closed, ?_⟩
        · simp only [lowered, write_eq _ inside, Option.bind_eq_bind, Option.bind_some]
          rfl
        · rw [follows.cameFrom]
      · rw [if_neg cheaper] at improved ⊢
        cases improved
        exact ⟨c, rfl, follows⟩

/-- Where the search on integers takes note of a stop, so does the other. -/
theorem Follows.consider (follows : c.Follows s) (valid : s.openSet.Valid)
    (inside : e.contains stop.cell = true)
    (considered : Search.consider goal source s stop = .ok s')
    : ∃ c', Checked.consider goal source c stop = some (.ok c') ∧ c'.Follows s' := by
  rw [Search.consider] at considered
  rw [Checked.consider, read_eq _ inside false, read_eq _ inside none, follows.closed,
    follows.handles, Option.bind_eq_bind, Option.bind_some]
  cases closed : s.closed.get stop.cell false with
  | true =>
      rw [if_pos closed] at considered
      cases considered
      exact ⟨c, rfl, follows⟩
  | false =>
      rw [if_neg (by simp [closed])] at considered
      obtain ⟨run, runFits, considered⟩ := orOverflow_bind_eq_ok.mp considered
      obtain ⟨sum, sumFits, considered⟩ := orOverflow_bind_eq_ok.mp considered
      obtain ⟨rest, restFits, considered⟩ := orOverflow_bind_eq_ok.mp considered
      obtain ⟨total, totalFits, considered⟩ := orOverflow_bind_eq_ok.mp considered
      simp only [Bool.false_eq_true, if_false, octile_eq, runFits, sumFits, restFits, totalFits,
        Option.bind_eq_bind, Option.bind_some]
      cases handle : s.handles.get stop.cell none with
      | none =>
          rw [handle] at considered
          exact follows.discover inside considered
      | some handle' =>
          rw [handle] at considered
          exact follows.improve valid inside considered

/-- Where the search on integers closes a node, so does the other. -/
theorem Follows.close (follows : c.Follows s) (consistent : s.Consistent goal)
    {x : Entry Int Node} {heap : FibonacciHeap Int Node} (popped : s.openSet.pop? = some (x, heap))
    : ∃ c', Checked.close c = some (some (x.value, c')) ∧ c'.Follows (s.close heap x.value) := by
  obtain ⟨slots, taken, models⟩ := follows.openSet.pop_some consistent.heap popped
  obtain ⟨y, hy, same⟩ := (consistent.least popped).waits
  have inside := consistent.inside y hy
  rw [same] at inside
  refine ⟨{ c with
      openSet := slots
      handles := c.handles.set x.value.cell none
      closed := c.closed.set x.value.cell true }, ?_, models, ?_, ?_, follows.cameFrom⟩
  · simp only [Checked.close, taken, write_eq _ inside, Option.bind_eq_bind, Option.bind_some]
    rfl
  · rw [follows.handles]
    rfl
  · rw [follows.closed]
    rfl

theorem Follows.close_none (follows : c.Follows s) (popped : s.openSet.pop? = none)
    : Checked.close c = some none := by
  rw [Checked.close, follows.openSet.pop_none popped]
  rfl

/-- A node that is closed is the least one of the search on integers. -/
theorem Follows.of_close (follows : c.Follows s) (consistent : s.Consistent goal) {node : Node}
    {c' : State e} (closed : Checked.close c = some (some (node, c')))
    : ∃ x heap,
        s.openSet.pop? = some (x, heap)
        ∧ x.value = node
        ∧ c'.Follows (s.close heap node) := by
  cases popped : s.openSet.pop? with
  | none =>
      rw [follows.close_none popped] at closed
      cases closed
  | some result =>
      obtain ⟨x, heap⟩ := result
      obtain ⟨c₁, same, follows₁⟩ := follows.close consistent popped
      rw [closed] at same
      cases same
      exact ⟨x, heap, rfl, rfl, follows₁⟩

end State

-----------------------------------------------------------------------------------------
-- The same rounds
-----------------------------------------------------------------------------------------

variable {t : Terrain} {c c' : State t.extent} {s s' : Search t.extent} {start goal : Point}
  {source node : Node} {rest done : List Node}

open Terrain

theorem stops_eq (inside : t.extent.contains node.cell = true)
    : stops t goal node
      = some (t.jumps goal node.cell (t.directions node.cell node.heading)).stops := by
  rw [stops, directions_eq inside, Option.bind_eq_bind, Option.bind_some, jumps_eq inside]
  rfl

/-- Where the search on integers considers all stops, so does the other, by induction over the
stops.
-/
theorem State.Follows.considerAll (follows : c.Follows s)
    (ledger : t.Ledger start goal (source :: rest) s) (fits : t.extent.CostsFit)
    (target : t.extent.contains goal = true) {found : List Stop}
    (sweeps : ∀ stop ∈ found, ∃ d k, t.Sweep goal source.cell d stop.cell stop.heading k)
    : ∃ c' s',
        considerAll goal source found c = some (.ok c')
        ∧ found.foldlM (Search.consider goal source) s = .ok s'
        ∧ c'.Follows s'
        ∧ t.Ledger start goal (source :: rest) s' := by
  induction found generalizing c s with
  | nil => exact ⟨c, s, rfl, rfl, follows, ledger⟩
  | cons stop found ih =>
      obtain ⟨d, k, sweep⟩ := sweeps stop List.mem_cons_self
      obtain ⟨sound, _⟩ := ledger.recorded.head
      have inside := contains_of_walkable (sweep.walk sound.walk.walkable).walkable
      obtain ⟨s₁, considered, ledger₁, _⟩ := ledger.consider fits target sweep
      obtain ⟨c₁, first, follows₁⟩ := follows.consider ledger.consistent.heap inside considered
      obtain ⟨c₂, s₂, others, folded, follows₂, ledger₂⟩ :=
        ih follows₁ ledger₁ fun stop hs => sweeps stop (List.mem_cons_of_mem _ hs)
      refine ⟨c₂, s₂, ?_, ?_, follows₂, ledger₂⟩
      · rw [Checked.considerAll, first]
        exact others
      · rw [List.foldlM_cons, considered]
        exact folded

/-- The jump points of the node that was closed last can be considered, and so can the first ones of
them.
-/
theorem State.Follows.considerStops (follows : c.Follows s)
    (ledger : t.Ledger start goal (node :: rest) s) (fits : t.extent.CostsFit)
    (target : t.extent.contains goal = true) {earlier later : List Stop}
    (split : stops t goal node = some (earlier ++ later))
    : ∃ c' s',
        Checked.considerAll goal node earlier c = some (.ok c')
        ∧ earlier.foldlM (Search.consider goal node) s = .ok s'
        ∧ c'.Follows s'
        ∧ t.Ledger start goal (node :: rest) s' := by
  obtain ⟨sound, _⟩ := ledger.recorded.head
  rw [stops_eq sound.inside] at split
  have sweeps := (t.jumps_sweep goal node.cell (t.directions node.cell node.heading)).stops
  rw [Option.some.inj split] at sweeps
  exact follows.considerAll ledger fits target fun stop hs =>
    sweeps stop (List.mem_append_left later hs)

/-- A round that closes another node than the goal is the same on both sides. -/
theorem State.Follows.round (follows : c.Follows s) (onCourse : t.OnCourse start goal done s)
    (fits : t.extent.CostsFit) (target : t.extent.contains goal = true) {x : Entry Int Node}
    {heap : FibonacciHeap Int Node} (popped : s.openSet.pop? = some (x, heap))
    (other : x.value.cell ≠ goal)
    : ∃ c₁ c₂ n s₂,
        Checked.close c = some (some (x.value, c₁))
        ∧ Checked.expand t goal x.value c₁ = some (.ok c₂)
        ∧ t.advance goal s = .ok (.underway s₂)
        ∧ c₂.Follows s₂
        ∧ t.OnCourse start goal (n :: done) s₂ := by
  obtain ⟨c₁, closed, follows₁⟩ := follows.close onCourse.ledger.consistent popped
  have ledger₁ := onCourse.ledger.close popped
  have inside := ledger₁.recorded.head.1.inside
  have whole : stops t goal x.value
      = some ((t.jumps goal x.value.cell (t.directions x.value.cell x.value.heading)).stops ++ [])
      := by
    rw [stops_eq inside, List.append_nil]
  obtain ⟨c₂, s₂, considered, folded, follows₂, _⟩ :=
    follows₁.considerStops ledger₁ fits target whole
  have advanced : t.advance goal s = .ok (.underway s₂) := by
    rw [advance, popped]
    simp only [if_neg other, Terrain.expand, folded]
    rfl
  have expanded : Checked.expand t goal x.value c₁ = some (.ok c₂) := by
    rw [Checked.expand, stops_eq inside]
    exact considered
  rcases onCourse.advance fits target with ends | ⟨n, s', next, further⟩
  · rw [advanced] at ends
    cases ends
  · rw [advanced] at next
    cases next
    exact ⟨c₁, c₂, n, s₂, closed, expanded, advanced, follows₂, further⟩

/-- The search on integers has ended in the same way: its open set has run out, or it has closed the
goal in the same state.
-/
inductive Agrees (t : Terrain) (start goal : Point)
    : Option (State t.extent) → Except MapFault (Progress t.extent) → Prop
  | exhausted : Agrees t start goal none (.ok .exhausted)
  | reached {c : State t.extent} {s : Search t.extent} {node : Node} {done : List Node}
    (follows : c.Follows s) (cell : node.cell = goal)
    (ledger : t.Ledger start goal (node :: done) s)
    : Agrees t start goal (some c) (.ok (.reached node s))

/-- The rounds of both searches end in the same way, by induction over the rounds. -/
theorem State.Follows.rounds (follows : c.Follows s) (onCourse : t.OnCourse start goal done s)
    (fits : t.extent.CostsFit) (target : t.extent.contains goal = true) {k : Nat}
    (enough : t.extent.area < done.length + k)
    : ∃ outcome,
        Checked.rounds t goal k c = some (.ok outcome)
        ∧ Agrees t start goal outcome (t.rounds goal k s) := by
  induction k generalizing c s done with
  | zero =>
      -- Every round closes another cell, so there is always a round left for the goal.
      have room := onCourse.ledger.length_lt target onCourse.unreached
      omega
  | succ k ih =>
      rw [Checked.rounds, Terrain.rounds]
      cases popped : s.openSet.pop? with
      | none =>
          refine ⟨none, ?_, ?_⟩
          · rw [follows.close_none popped]
            rfl
          · rw [advance, popped]
            exact .exhausted
      | some result =>
          obtain ⟨x, heap⟩ := result
          by_cases reached : x.value.cell = goal
          · obtain ⟨c₁, closed, follows₁⟩ := follows.close onCourse.ledger.consistent popped
            refine ⟨some c₁, ?_, ?_⟩
            · rw [closed, Option.bind_eq_bind, Option.bind_some]
              exact if_pos reached
            · rw [advance, popped]
              simp only [if_pos reached]
              exact .reached follows₁ reached (onCourse.ledger.close popped)
          · obtain ⟨c₁, c₂, n, s₂, closed, expanded, advanced, follows₂, further⟩ :=
              follows.round onCourse fits target popped reached
            rw [closed, advanced, Option.bind_eq_bind, Option.bind_some]
            simp only [if_neg reached, expanded]
            exact ih follows₂ further (by simp only [List.length_cons]; omega)

/-- Both searches begin on the same course. -/
theorem exists_onCourse (fits : t.extent.CostsFit) (free : t.walkable start = true)
    (target : t.extent.contains goal = true)
    : ∃ c s,
        initial t.extent start goal = some (.ok c)
        ∧ Search.initial t.extent start goal = .ok s
        ∧ c.Follows s
        ∧ t.OnCourse start goal [] s := by
  obtain ⟨s, begun, ledger⟩ := exists_ledger fits free target
  obtain ⟨c, same, follows⟩ := State.exists_initial (contains_of_walkable free) begun
  refine ⟨c, s, same, begun, follows, ledger, by simp, Or.inl ⟨?_, ?_, ?_⟩⟩
  all_goals simp

/-- Both searches end in the same way. -/
theorem search_agrees (fits : t.extent.CostsFit) (free : t.walkable start = true)
    (target : t.extent.contains goal = true)
    : ∃ outcome,
        search t goal start = some (.ok outcome)
        ∧ Agrees t start goal outcome (t.search start goal) := by
  obtain ⟨c, s, same, begun, follows, onCourse⟩ := exists_onCourse fits free target
  rw [search, same, Terrain.search, begun]
  exact follows.rounds onCourse fits target (by simp)

-----------------------------------------------------------------------------------------
-- The handles of the open set
-----------------------------------------------------------------------------------------

/-- The handles on record and the elements of the open set belong to each other one by one: a handle
names an element for its cell, whose key is the cost of the way and the octile cost from there to
the goal, and no such cell is closed. The open set has room for every cell, and its links are sound.
-/
structure Tracks {e : Extent} (goal : Point) (s : State e) : Prop where
  capacity : s.openSet.capacity = e.area
  wellLinked : s.openSet.WellLinked
  live_iff : ∀ handle, s.openSet.Live handle ↔ ∃! p, s.handles.get p none = some handle
  named : ∀ p handle, s.handles.get p none = some handle
    → ∃ x, s.openSet.entry? handle = some x
        ∧ x.value.cell = p
        ∧ x.key = x.value.cost + Wayfinding.octile x.value.cell goal
  unclosed : ∀ p handle, s.handles.get p none = some handle → s.closed.get p false = false

/-- A state that the search on integers comes to as well keeps track of its open set. -/
theorem State.Follows.tracks {e : Extent} {c : State e} {s : Search e} (follows : c.Follows s)
    (consistent : s.Consistent goal)
    : Tracks goal c := by
  have entry (handle : Nat) : c.openSet.entry? handle = s.openSet.entry? handle :=
    follows.openSet.entry? consistent.heap handle
  have named : ∀ p handle, c.handles.get p none = some handle
      → ∃ x ∈ s.openSet.entries, x.handle = handle ∧ x.value.cell = p := by
    rw [follows.handles]
    exact consistent.named
  refine ⟨follows.openSet.capacity.trans consistent.capacity,
    follows.openSet.wellLinked consistent.heap, ?_, ?_, ?_⟩
  · intro handle
    rw [follows.openSet.live_iff consistent.heap, Tree.map_handle_forestVertices]
    constructor
    · intro live
      obtain ⟨x, hx, rfl⟩ := List.mem_map.mp live
      refine ⟨x.value.cell, ?_, fun p shown => ?_⟩
      · rw [follows.handles]
        exact consistent.handles x hx
      · obtain ⟨y, hy, same, rfl⟩ := named p x.handle shown
        rw [consistent.heap.entry_eq hy hx same]
    · intro shown
      obtain ⟨p, shown, _⟩ := shown
      obtain ⟨x, hx, rfl, _⟩ := named p handle shown
      exact List.mem_map_of_mem hx
  · intro p handle shown
    obtain ⟨x, hx, rfl, rfl⟩ := named p handle shown
    exact ⟨x, (entry _).trans (consistent.heap.entry?_eq_some.mpr ⟨hx, rfl⟩), rfl,
      consistent.keys x hx⟩
  · intro p handle shown
    obtain ⟨x, hx, _, rfl⟩ := named p handle shown
    rw [follows.closed]
    exact consistent.apart x hx

end Checked

end Wayfinding
