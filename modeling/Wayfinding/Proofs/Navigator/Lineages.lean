import Wayfinding.Proofs.Checked.Paths
import Wayfinding.Proofs.Navigator.Queries
import Wayfinding.Proofs.Search.Lineages

/-! Where the cells of a search come from, in the buffers of a map. From the moment at which a
search begins until it ends, the cells from which others were reached form a tree with its root at
the start, whichever node is closed or stop is considered next. So the way back from the goal can be
read from the buffers that a search leaves behind.
-/

namespace Wayfinding

-----------------------------------------------------------------------------------------
-- The tree
-----------------------------------------------------------------------------------------

namespace Checked

/-- The cell waits in the open set or is closed. -/
def State.Knows {e : Extent} (s : State e) (p : Point) : Prop :=
  (s.handles.get p none).isSome = true ∨ s.closed.get p false = true

/-- The cost of the way to a cell, if it waits in the open set or is among the closed ones, whose
nodes are listed.
-/
def State.cost? {e : Extent} (s : State e) (done : List Node) (p : Point) : Option Int :=
  match s.handles.get p none with
  | some handle => (s.openSet.get? handle).map Node.cost
  | none => (done.find? fun n => n.cell == p).map Node.cost

/-- The cells from which others were reached form a tree with its root at the start, where the nodes
that have been closed are listed. The start was reached from nowhere, and every other cell that the
search knows from a closed one, at the cost of the way there and of the way between the two. Going
back leads to the start in fewer steps than there are cells.
-/
structure State.Rooted {e : Extent} (s : State e) (start : Point) (done : List Node) : Prop where
  closed : ∀ p, s.closed.get p false = true ↔ p ∈ done.map Node.cell
  root : s.cameFrom.get start none = none
  linked : ∀ p, s.Knows p → p ≠ start
    → ∃ q c,
        s.cameFrom.get p none = some q
        ∧ s.closed.get q false = true
        ∧ s.cost? done q = some c
        ∧ s.cost? done p = some (c + Wayfinding.octile q p)
  led : ∀ p, s.Knows p → ∃ k < e.area, back s.cameFrom k p = some start

variable {t : Terrain} {start goal p : Point} {done : List Node} {node : Node}
  {c : State t.extent} {s : Search t.extent}

/-- The cost of a waiting cell is that of its node. -/
theorem State.Follows.cost?_of_waits (follows : c.Follows s) (consistent : s.Consistent goal)
    (waits : s.Waits node) (done : List Node)
    : c.cost? done node.cell = some node.cost := by
  obtain ⟨x, hx, rfl⟩ := waits
  have shown : c.openSet.get? x.handle = s.openSet.get? x.handle :=
    congrArg (Option.map Entry.value) (follows.openSet.entry? consistent.heap x.handle)
  simp only [cost?, follows.handles, consistent.handles x hx, shown, consistent.get?_eq hx,
    Option.map_some]

/-- The cost of a closed cell is that of its node, because it does not wait any more. -/
theorem State.Follows.cost?_of_mem (follows : c.Follows s) (ledger : t.Ledger start goal done s)
    (member : node ∈ done)
    : c.cost? done node.cell = some node.cost := by
  have unnamed : c.handles.get node.cell none = none := by
    rw [follows.handles, Option.eq_none_iff_forall_ne_some]
    intro handle shown
    obtain ⟨x, hx, _, same⟩ := ledger.consistent.named node.cell handle shown
    have waits : s.Waits x.value := ⟨x, hx, rfl⟩
    exact ledger.not_mem_of_waits waits (same ▸ List.mem_map_of_mem member)
  have found : (done.find? fun n => n.cell == node.cell) = some node := by
    cases first : done.find? fun n => n.cell == node.cell with
    | none =>
        have other := List.find?_eq_none.mp first node member
        simp at other
    | some n =>
        have same : n.cell = node.cell := by simpa using List.find?_some first
        rw [List.inj_on_of_nodup_map ledger.distinct (List.mem_of_find?_eq_some first) member same]
  rw [cost?, unnamed, found, Option.map_some]

/-- Every cell that a search knows has a node that waits or is closed, and its cost is that of the
node.
-/
theorem State.Follows.exists_node (follows : c.Follows s) (ledger : t.Ledger start goal done s)
    (known : c.Knows p)
    : ∃ n,
        n.cell = p ∧ (s.Waits n ∨ n ∈ done) ∧ c.cost? done p = some n.cost := by
  rw [Knows, follows.handles, follows.closed, ledger.closed, Option.isSome_iff_exists] at known
  rcases known with ⟨handle, shown⟩ | closed
  · obtain ⟨x, hx, _, rfl⟩ := ledger.consistent.named p handle shown
    have waits : s.Waits x.value := ⟨x, hx, rfl⟩
    exact ⟨x.value, rfl, .inl waits, follows.cost?_of_waits ledger.consistent waits done⟩
  · obtain ⟨n, member, rfl⟩ := List.mem_map.mp closed
    exact ⟨n, rfl, .inr member, follows.cost?_of_mem ledger member⟩

/-- A state that the search on integers comes to as well has its root at the start. -/
theorem State.Follows.rooted (follows : c.Follows s) (ledger : t.Ledger start goal done s)
    : c.Rooted start done := by
  have closed (p : Point) : c.closed.get p false = true ↔ p ∈ done.map Node.cell := by
    rw [follows.closed, ledger.closed]
  refine ⟨closed, by rw [follows.cameFrom, ledger.root], fun p known other => ?_,
    fun p known => ?_⟩
  · obtain ⟨n, rfl, place, cost⟩ := follows.exists_node ledger known
    rcases ledger.descends place with same | ⟨m, member, link, sum⟩
    · exact absurd same other
    · refine ⟨m.cell, m.cost, by rw [follows.cameFrom, link],
        (closed _).mpr (List.mem_map_of_mem member), follows.cost?_of_mem ledger member, ?_⟩
      rw [cost, sum]
  · obtain ⟨n, rfl, place, _⟩ := follows.exists_node ledger known
    rw [follows.cameFrom]
    exact ledger.exists_back place

end Checked

-----------------------------------------------------------------------------------------
-- The moments of a search
-----------------------------------------------------------------------------------------

namespace Navigator

open Checked

/-- The moments of a search in the buffers of a map: which nodes have been closed, the latest first,
which stops of the latest one are still to be considered, and the state. No stop is left before a
node is closed, and neither is any when the search has ended.
-/
inductive Moment (n : Navigator) (start goal : Point)
    : List Node → List Stop → State n.extent → Prop
  | begun {s : State n.extent}
      (begun : n.reset.initial start goal = some (.ok s))
      : n.Moment start goal [] [] s
  | closed {done : List Node} {ahead : List Stop} {node : Node} {s s' : State n.extent}
      (before : n.Moment start goal done [] s)
      (underway : goal ∉ done.map Node.cell)
      (closed : Buffers.close s = some (some node, s'))
      (other : node.cell ≠ goal)
      (found : stops n.terrain goal node = some ahead)
      : n.Moment start goal (node :: done) ahead s'
  | considered {done : List Node} {ahead : List Stop} {node : Node} {stop : Stop}
      {s s' : State n.extent}
      (before : n.Moment start goal (node :: done) (stop :: ahead) s)
      (considered : Buffers.consider goal node s stop = some (.ok (), s'))
      : n.Moment start goal (node :: done) ahead s'
  | reached {done : List Node} {node : Node} {s s' : State n.extent}
      (before : n.Moment start goal done [] s)
      (underway : goal ∉ done.map Node.cell)
      (closed : Buffers.close s = some (some node, s'))
      (same : node.cell = goal)
      : n.Moment start goal (node :: done) [] s'
  | exhausted {done : List Node} {s s' : State n.extent}
      (before : n.Moment start goal done [] s)
      (underway : goal ∉ done.map Node.cell)
      (closed : Buffers.close s = some (none, s'))
      : n.Moment start goal done [] s'

variable {n : Navigator} {start goal : Point} {done : List Node} {ahead : List Stop} {node : Node}
  {stop : Stop} {c c' : State n.extent} {s : Search n.extent}

/-- Where a node is closed in the buffers, so it is by the search on integers. -/
theorem follows_of_close (follows : c.Follows s) (consistent : s.Consistent goal)
    (closed : Buffers.close c = some (some node, c'))
    : ∃ x heap,
        s.openSet.pop? = some (x, heap) ∧ x.value = node ∧ c'.Follows (s.close heap node) := by
  refine follows.of_close consistent ?_
  rw [← Buffers.close_eq, closed]
  rfl

/-- Where nothing is left to be closed, nothing changes. -/
theorem eq_of_close_none (follows : c.Follows s) (consistent : s.Consistent goal)
    (closed : Buffers.close c = some (none, c'))
    : c' = c := by
  cases popped : s.openSet.pop? with
  | none =>
      obtain ⟨openSet, handles, closed, cameFrom⟩ := c
      rw [Buffers.close, follows.openSet.pop_none popped] at closed
      cases closed
      rfl
  | some result =>
      obtain ⟨_, same, _⟩ := follows.close consistent popped
      rw [← Buffers.close_eq, closed] at same
      cases same

/-- Where a search begins without buffers, so it does in those that have been reset. -/
theorem initial_reset (begun : Checked.initial n.extent start goal = some (.ok c))
    : n.reset.initial start goal = some (.ok c) := by
  obtain ⟨_ | c', initial, same⟩ :=
    Option.map_eq_some_iff.mp (n.renewed_reset.initial_eq.trans begun)
  · cases same
  · cases same
    exact initial

/-- The search on integers comes to every moment. -/
theorem Moment.exists_ledger (moment : n.Moment start goal done ahead c)
    (fits : n.extent.CostsFit) (free : n.walkable start = true) (target : n.walkable goal = true)
    : ∃ s,
        c.Follows s
        ∧ n.terrain.Ledger start goal done s
        ∧ ∀ stop ∈ ahead,
            ∃ source rest d k,
              done = source :: rest
              ∧ n.terrain.Sweep goal source.cell d stop.cell stop.heading k := by
  have inside : n.terrain.extent.contains goal = true := Terrain.contains_of_walkable target
  induction moment with
  | begun begun =>
      obtain ⟨_, s, same, _, follows, onCourse⟩ := exists_onCourse fits free inside
      have reset : (n.reset.initial start goal).map (Except.mapError MapFault.heap)
          = Checked.initial n.terrain.extent start goal := n.renewed_reset.initial_eq
      rw [begun, same] at reset
      cases reset
      exact ⟨s, follows, onCourse.ledger, List.forall_mem_nil _⟩
  | closed _ _ closed other found ih =>
      obtain ⟨s, follows, ledger, _⟩ := ih
      obtain ⟨x, heap, popped, rfl, follows'⟩ := follows_of_close follows ledger.consistent closed
      have ledger' := ledger.close popped
      rw [stops_eq ledger'.recorded.head.1.inside, Option.some.injEq] at found
      refine ⟨_, follows', ledger', fun stop member => ?_⟩
      rw [← found] at member
      obtain ⟨d, k, sweep⟩ := (n.terrain.jumps_sweep goal x.value.cell _).stops stop member
      exact ⟨_, _, d, k, rfl, sweep⟩
  | @considered done ahead node stop c c' _ considered ih =>
      obtain ⟨s, follows, ledger, sweeps⟩ := ih
      rw [List.forall_mem_cons] at sweeps
      obtain ⟨⟨source, rest, d, k, same, sweep⟩, later⟩ := sweeps
      cases same
      have walk := sweep.walk ledger.recorded.head.1.walk.walkable
      obtain ⟨s', noted, ledger', _⟩ := ledger.consider fits inside sweep
      obtain ⟨_, same, follows'⟩ := follows.consider ledger.consistent.heap
        (Terrain.contains_of_walkable walk.walkable) noted
      have settled := Buffers.consider_settled c goal node stop
      rw [considered, same] at settled
      cases settled
      exact ⟨s', follows', ledger', later⟩
  | reached _ _ closed same ih =>
      obtain ⟨s, follows, ledger, _⟩ := ih
      obtain ⟨x, heap, popped, rfl, follows'⟩ := follows_of_close follows ledger.consistent closed
      exact ⟨_, follows', ledger.close popped, List.forall_mem_nil _⟩
  | exhausted _ _ closed ih =>
      obtain ⟨s, follows, ledger, ahead⟩ := ih
      rw [eq_of_close_none follows ledger.consistent closed]
      exact ⟨s, follows, ledger, ahead⟩

/-- At every moment the cells from which others were reached form a tree. -/
theorem Moment.rooted (moment : n.Moment start goal done ahead c) (fits : n.extent.CostsFit)
    (free : n.walkable start = true) (target : n.walkable goal = true)
    : c.Rooted start done := by
  obtain ⟨s, follows, ledger, _⟩ := moment.exists_ledger fits free target
  exact follows.rooted ledger

/-- The stops that are left can all be considered, by induction over them. -/
theorem Moment.considerAll (moment : n.Moment start goal (node :: done) ahead c)
    (considered : Buffers.considerAll goal node ahead c = some (.ok (), c'))
    : n.Moment start goal (node :: done) [] c' := by
  induction ahead generalizing c with
  | nil =>
      cases considered
      exact moment
  | cons stop ahead ih =>
      rw [Buffers.considerAll] at considered
      obtain ⟨⟨_ | _, c₁⟩, first, others⟩ := Option.bind_eq_some_iff.mp considered
      · cases others
      · exact ih (moment.considered first) others

/-- Rounds of a search lead from one moment to another, by induction over their number. -/
theorem Moment.rounds (moment : n.Moment start goal done [] c)
    (underway : goal ∉ done.map Node.cell) {k : Nat} {found : Bool}
    (ended : Buffers.rounds n.terrain goal k c = some (.ok found, c'))
    : ∃ done',
        n.Moment start goal done' [] c' ∧ (found = true → goal ∈ done'.map Node.cell) := by
  induction k generalizing done c with
  | zero => cases ended
  | succ k ih =>
      obtain ⟨⟨_ | node, c₁⟩, closed, ended⟩ := Option.bind_eq_some_iff.mp ended
      · cases ended
        exact ⟨done, moment.exhausted underway closed, fun found => by cases found⟩
      · dsimp only at ended
        split at ended
        case isTrue same =>
          cases ended
          exact ⟨node :: done, moment.reached underway closed same, fun _ => by simp [same]⟩
        case isFalse other =>
          obtain ⟨⟨_ | _, c₂⟩, expanded, ended⟩ := Option.bind_eq_some_iff.mp ended
          · cases ended
          · rw [Buffers.expand] at expanded
            obtain ⟨ahead, found, considered⟩ := Option.bind_eq_some_iff.mp expanded
            have next := (moment.closed underway closed other found).considerAll considered
            refine ih next ?_ ended
            rw [List.map_cons, List.mem_cons, not_or]
            exact ⟨Ne.symm other, underway⟩

/-- The path to a closed cell can be read from the buffers that a search leaves behind. -/
theorem Moment.exists_pathTo (moment : n.Moment start goal done ahead c)
    (fits : n.extent.CostsFit) (free : n.walkable start = true) (target : n.walkable goal = true)
    {p : Point} (closed : p ∈ done.map Node.cell)
    : ∃ cells, (n.reset.keep c).pathTo p = some cells := by
  obtain ⟨s, follows, ledger, _⟩ := moment.exists_ledger fits free target
  obtain ⟨m, member, rfl⟩ := List.mem_map.mp closed
  have back : Checked.walkBack c.cameFrom n.extent.area m.cell
      = some (walkBack s.cameFrom n.extent.area m.cell) := by
    rw [follows.cameFrom]
    exact walkBack_eq ledger.recorded member ledger.length_le
  exact ⟨_, Option.bind_eq_some_iff.mpr ⟨_, back, rfl⟩⟩

/-- A state in which no search has left anything has its root anywhere. -/
theorem Renewed.rooted (renewed : n.Renewed) (openSet : Arena Int Node) (start : Point)
    : State.Rooted ⟨openSet, n.handles, n.closed, n.cameFrom⟩ start [] := by
  have blank {α : Type} (v : α) (p : Point) : (Layer.fill n.extent v).get p v = v := by
    rw [Layer.get_fill, ite_self]
  have unknown (p : Point)
      : ¬ State.Knows ⟨openSet, n.handles, n.closed, n.cameFrom⟩ p := by
    simp [State.Knows, renewed.handles, renewed.closed, blank]
  refine ⟨fun p => ?_, ?_, fun p known => absurd known (unknown p),
    fun p known => absurd known (unknown p)⟩
  · simp [renewed.closed, blank]
  · rw [renewed.cameFrom, blank]

/-- Where the costs fit, the rounds of a search come to an end at one of its moments. -/
theorem exists_moment (fits : n.extent.CostsFit) (free : n.walkable start = true)
    (target : n.walkable goal = true)
    : ∃ c c' found done,
        n.reset.initial start goal = some (.ok c)
        ∧ Buffers.rounds n.terrain goal (n.extent.area + 1) c = some (.ok found, c')
        ∧ n.Moment start goal done [] c'
        ∧ (found = true → goal ∈ done.map Node.cell) := by
  have inside : n.terrain.extent.contains goal = true := Terrain.contains_of_walkable target
  obtain ⟨c, s, begun, _, follows, onCourse⟩ := exists_onCourse fits free inside
  have first : n.reset.initial start goal = some (.ok c) := initial_reset begun
  obtain ⟨outcome, ran, _⟩ := follows.rounds onCourse fits inside
    (Nat.lt_add_left 0 (Nat.lt_succ_self n.extent.area))
  obtain ⟨⟨_ | found, c'⟩, ended, same⟩ := Option.map_eq_some_iff.mp
    ((Buffers.rounds_concluded goal n.terrain (n.extent.area + 1) c).trans ran)
  · cases same
  · obtain ⟨done, moment, closed⟩ := (Moment.begun first).rounds List.not_mem_nil ended
    exact ⟨c, c', found, done, first, ended, moment, closed⟩

/-- What is answered without a search: a cell has a way to itself, and there is no way where queries
are rejected and the marked parts speak against one.
-/
inductive Unsought (n : Navigator) (start goal : Point) : Bool → Prop
  | stays (same : start = goal) : n.Unsought start goal true
  | rejected (apart : start ≠ goal) (rejects : n.settings.connectivityReject = true)
    (parted : n.mayConnect start goal = false)
    : n.Unsought start goal false

/-- Any other answer needs a search. -/
theorem exists_unsought_or (n : Navigator) (start goal : Point)
    : (∃ found, n.Unsought start goal found)
      ∨ start ≠ goal
        ∧ (n.settings.connectivityReject && !n.mayConnect start goal) = false := by
  by_cases same : start = goal
  · exact .inl ⟨true, .stays same⟩
  · cases rejected : n.settings.connectivityReject && !n.mayConnect start goal with
    | true =>
        obtain ⟨rejects, parted⟩ := Bool.and_eq_true_iff.mp rejected
        exact .inl ⟨false, .rejected same rejects (Bool.eq_false_of_not_eq_true' parted)⟩
    | false => exact .inr ⟨same, rfl⟩

theorem mayConnect_reset (free : n.walkable start = true) (target : n.walkable goal = true)
    : mayConnect n.reset.toGridMap start goal = some (n.mayConnect start goal) :=
  mayConnect_eq (m := n.toGridMap) (Terrain.contains_of_walkable free)
    (Terrain.contains_of_walkable target)

/-- Without a search the buffers are those of a map that has been reset. -/
theorem Unsought.seek_eq {found : Bool} (unsought : n.Unsought start goal found)
    (free : n.walkable start = true) (target : n.walkable goal = true)
    : n.seek start goal = some (.ok found, n.reset) := by
  rw [seek]
  cases unsought with
  | stays same => rw [if_pos same]; rfl
  | rejected apart rejects parted =>
      rw [if_neg apart, mayConnect_reset free target, parted]
      change (if n.settings.connectivityReject && !false then _ else _) = _
      rw [rejects]
      rfl

/-- With a search the buffers are those that its rounds have left. -/
theorem seek_of_rounds (free : n.walkable start = true) (target : n.walkable goal = true)
    (apart : start ≠ goal)
    (allowed : (n.settings.connectivityReject && !n.mayConnect start goal) = false)
    (begun : n.reset.initial start goal = some (.ok c)) {found : Except HeapFault Bool}
    (ended : Buffers.rounds n.terrain goal (n.extent.area + 1) c = some (found, c'))
    : n.seek start goal = some (found, n.reset.keep c') := by
  rw [seek]
  simp only [if_neg apart, mayConnect_reset free target, Option.bind_eq_bind, Option.bind_some]
  rw [if_neg, begun]
  · change (Buffers.rounds n.terrain goal (n.extent.area + 1) c).bind _ = _
    rw [ended]
    rfl
  · exact Bool.eq_false_iff.mp allowed

/-- At every moment of a search whose costs fit, the cells from which others were reached form a
tree with its root at the start. The search ends at such a moment, unless it was over before it had
begun, and then the buffers are reset and their tree is empty. If it has found a way, the path can be
read from its buffers.
-/
theorem seek_rooted (fits : n.extent.CostsFit) (free : n.walkable start = true)
    (target : n.walkable goal = true)
    : (∀ done ahead c, n.Moment start goal done ahead c → c.Rooted start done)
      ∧ ∃ found after done c,
          n.seek start goal = some (.ok found, after)
          ∧ after = n.reset.keep c
          ∧ (n.Moment start goal done [] c
            ∨ after = n.reset ∧ done = [] ∧ n.Unsought start goal found)
          ∧ c.Rooted start done
          ∧ (found = true → ∃ cells, after.pathTo goal = some cells) := by
  refine ⟨fun done ahead c moment => moment.rooted fits free target, ?_⟩
  have inside : n.reset.extent.contains goal = true := Terrain.contains_of_walkable target
  obtain ⟨c, c', found, done, begun, ended, moment, closed⟩ := exists_moment fits free target
  rcases n.exists_unsought_or start goal with ⟨answer, unsought⟩ | ⟨apart, allowed⟩
  · exact ⟨answer, n.reset, [], _, unsought.seek_eq free target, rfl, .inr ⟨rfl, rfl, unsought⟩,
      n.renewed_reset.rooted c.openSet start, fun _ => ⟨_, n.renewed_reset.pathTo_eq inside⟩⟩
  · exact ⟨found, n.reset.keep c', done, c', seek_of_rounds free target apart allowed begun ended,
      rfl, .inl moment, moment.rooted fits free target,
      fun seen => moment.exists_pathTo fits free target (closed seen)⟩

/-- A search in buffers that were in disorder ends at one of its moments. -/
theorem seek_rooted_squeeze
    : (disordered GridMap.squeeze).extent.CostsFit
      ∧ (disordered GridMap.squeeze).walkable ⟨0, 0⟩ = true
      ∧ (disordered GridMap.squeeze).walkable ⟨3, 0⟩ = true
      ∧ ∃ after done c cells,
          (disordered GridMap.squeeze).seek ⟨0, 0⟩ ⟨3, 0⟩ = some (.ok true, after)
          ∧ after = (disordered GridMap.squeeze).reset.keep c
          ∧ (disordered GridMap.squeeze).Moment ⟨0, 0⟩ ⟨3, 0⟩ done [] c
          ∧ c.Rooted ⟨0, 0⟩ done
          ∧ after.pathTo ⟨3, 0⟩ = some cells := by
  have fits : (disordered GridMap.squeeze).extent.CostsFit := by decide
  have free : (disordered GridMap.squeeze).walkable ⟨0, 0⟩ = true := by decide +kernel
  have target : (disordered GridMap.squeeze).walkable ⟨3, 0⟩ = true := by decide +kernel
  obtain ⟨found, after, done, c, sought, kept, ending, rooted, readable⟩ :=
    (seek_rooted fits free target).2
  have seen : ((disordered GridMap.squeeze).seek ⟨0, 0⟩ ⟨3, 0⟩).map (fun r => r.1.toOption)
      = some (some true) := by decide +kernel
  rw [sought] at seen
  obtain rfl : found = true := by simpa [Except.toOption] using seen
  obtain ⟨cells, path⟩ := readable rfl
  rcases ending with moment | ⟨-, -, unsought⟩
  · exact ⟨fits, free, target, after, done, c, cells, sought, kept, moment, rooted, path⟩
  · cases unsought with
    | stays same => cases same

end Navigator

end Wayfinding
