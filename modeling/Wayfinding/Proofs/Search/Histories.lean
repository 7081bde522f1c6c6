import Wayfinding.Proofs.Queries.RawPaths
import Wayfinding.Proofs.Shortening

/-! What happens in a search, event by event. The estimate of the node closed last is a floor that
no waiting node lies below: a jump from it adds at least as much cost as it saves on the way to the
goal. So estimates come out of the open set in rising order, and a cell that is closed would not
be reached at a lower cost later on.
-/

namespace Wayfinding

namespace Search

variable {e : Extent} {s s' : Search e} {goal : Point} {source n m : Node} {stop : Stop}
  {event : Event}

/-- The element that an event takes out of the open set. -/
def Event.closing? : Event → Option (Entry Int Node)
  | .closed x => some x
  | _ => none

/-- The node that an event puts into the open set. -/
def Event.insertion? : Event → Option Node
  | .inserted n => some n
  | _ => none

/-- The elements taken out of the open set, the latest first. -/
def closings (log : List Event) : List (Entry Int Node) :=
  log.filterMap Event.closing?

/-- The nodes put into the open set, the latest first. -/
def insertions (log : List Event) : List Node :=
  log.filterMap Event.insertion?

/-- A later event leaves the cell alone that an earlier one closed. -/
def Spares (later earlier : Event) : Prop :=
  ∀ x n, earlier = .closed x → later = .inserted n ∨ later = .offered n → n.cell ≠ x.value.cell

/-- The rules that a search keeps to: the keys of the closed elements rise, no cell is inserted or
closed twice and no more are closed than there are, a closed cell is spared and waits no more, and
what is passed over costs no less than the closed node of its cell.
-/
structure Orderly (log : List Event) (s : Search e) : Prop where
  rising : (closings log).Pairwise fun later earlier => earlier.key ≤ later.key
  insertedOnce : ((insertions log).map Node.cell).Nodup
  closedOnce : ((closings log).map fun x => x.value.cell).Nodup
  bounded : (closings log).length ≤ e.area
  spared : log.Pairwise Spares
  gone : ∀ x ∈ closings log, ∀ n, s.Waits n → n.cell ≠ x.value.cell
  passed : ∀ n, .passed n ∈ log
    → ∃ x ∈ closings log, x.value.cell = n.cell ∧ x.value.cost ≤ n.cost

theorem closed_mem_iff {log : List Event} {x : Entry Int Node}
    : .closed x ∈ log ↔ x ∈ closings log := by
  rw [closings, List.mem_filterMap]
  constructor
  · exact fun member => ⟨_, member, rfl⟩
  · rintro ⟨other, member, closing⟩
    cases other <;> cases closing
    exact member

/-- To consider a stop closes nothing. -/
theorem Considers.closings_cons (considers : s.Considers goal source stop event s')
    (log : List Event)
    : closings (event :: log) = closings log := by
  cases considers <;> rfl

/-- Going by way of a stop cannot lower the estimate. -/
theorem estimate_le_reach (goal : Point) (source : Node) (stop : Stop)
    : source.cost + octile source.cell goal
      ≤ (reach source stop).cost + octile (reach source stop).cell goal := by
  have straight := octile_triangle source.cell stop.cell goal
  simp only [reach]
  omega

/-- After a stop is considered, the waiting nodes are some of those before and perhaps the new one.
-/
theorem Considered.waits (considered : s.Considered goal source n s') (waits : s'.Waits m)
    : m = n ∨ s.Waits m := by
  cases considered with
  | passed => exact Or.inr waits
  | taken _ _ puts _ => exact ((puts.waits m).mp waits).imp_right And.left

end Search

namespace Terrain

open Search

variable {t : Terrain} {start goal : Point} {log : List Event} {source : Node}
  {stop : Stop} {ahead : List Stop} {s s' : Search t.extent} {event : Event}

/-- A search up to some moment: its events, the latest first, the node closed last (before any is,
the start), the stops of this node's jumps that are still ahead, and the state at the moment.
-/
inductive History (t : Terrain) (start goal : Point)
    : List Event → Node → List Stop → Search t.extent → Prop
  | begun {s : Search t.extent} (initial : Search.initial t.extent start goal = .ok s)
    : t.History start goal [.inserted ⟨start, 0, none⟩] ⟨start, 0, none⟩ [] s
  | closed {log : List Event} {source : Node} {s : Search t.extent} {x : Entry Int Node}
    {heap : FibonacciHeap Int Node} (before : t.History start goal log source [] s)
    (unreached : ∀ y ∈ closings log, y.value.cell ≠ goal)
    (popped : s.openSet.pop? = some (x, heap))
    : t.History start goal (.closed x :: log) x.value
        (if x.value.cell = goal then [] else (t.jumpsOf goal x.value).stops)
        (s.close heap x.value)
  | considered {log : List Event} {source : Node} {stop : Stop} {ahead : List Stop}
    {s s' : Search t.extent} {event : Event}
    (before : t.History start goal log source (stop :: ahead) s)
    (considered : Search.consider goal source s stop = .ok s')
    (considers : s.Considers goal source stop event s')
    : t.History start goal (event :: log) source ahead s'

/-- How a search ends: the open set has run out after some events, or the last event closed the
goal.
-/
inductive Halts (t : Terrain) (start goal : Point) : Except MapFault (Progress t.extent) → Prop
  | exhausted {log : List Event} {source : Node} {s : Search t.extent}
    (history : t.History start goal log source [] s) (empty : s.openSet.pop? = none)
    : t.Halts start goal (.ok .exhausted)
  | reached {log : List Event} {x : Entry Int Node} {s : Search t.extent}
    (history : t.History start goal (.closed x :: log) x.value [] s)
    (cell : x.value.cell = goal)
    : t.Halts start goal (.ok (.reached x.value s))

-----------------------------------------------------------------------------------------
-- The record of a history
-----------------------------------------------------------------------------------------

/-- The closed elements are those on record, and the stops ahead are those of jumps from the latest
one.
-/
structure Accounts (t : Terrain) (start goal : Point) (log : List Event) (source : Node)
    (ahead : List Stop) (s : Search t.extent) : Prop where
  ledger : t.Ledger start goal ((closings log).map Entry.value) s
  latest : ahead ≠ [] → ∃ x earlier, closings log = x :: earlier ∧ x.value = source
  sweeps : ∀ stop ∈ ahead, ∃ d c, t.Sweep goal source.cell d stop.cell stop.heading c

/-- A stop ahead is considered as one that jumps lead to. -/
theorem Accounts.considers (accounts : t.Accounts start goal log source (stop :: ahead) s)
    (considers : s.Considers goal source stop event s')
    : s.Considered goal source (reach source stop) s'
      ∧ t.Accounts start goal (event :: log) source ahead s' := by
  obtain ⟨ledger, latest, sweeps⟩ := accounts
  obtain ⟨x, earlier, same, rfl⟩ := latest (List.cons_ne_nil _ _)
  obtain ⟨d, c, sweep⟩ := sweeps stop List.mem_cons_self
  rw [same] at ledger
  obtain ⟨sound, _⟩ := ledger.recorded.head
  have inside : t.extent.contains stop.cell = true :=
    contains_of_walkable (sweep.walk sound.walk.walkable).walkable
  obtain ⟨consistent, considered⟩ := ledger.consistent.considers inside considers
  refine ⟨considered, ?_, ?_, ?_⟩
  · rw [considers.closings_cons, same]
    exact ledger.considered consistent considered inside (sound.reach sweep)
  · exact fun _ => ⟨x, earlier, (considers.closings_cons log).trans same, rfl⟩
  · exact fun other later => sweeps other (List.mem_cons_of_mem _ later)

/-- The accounts are right throughout a search. -/
theorem History.accounts (history : t.History start goal log source ahead s)
    (fits : t.extent.CostsFit) (free : t.walkable start = true)
    (target : t.extent.contains goal = true)
    : t.Accounts start goal log source ahead s := by
  induction history with
  | begun initial =>
      obtain ⟨_, begun, ledger⟩ := exists_ledger fits free target
      rw [initial] at begun
      cases begun
      exact ⟨ledger, fun some => absurd rfl some, by simp⟩
  | @closed log _ _ x _ _ _ popped ih =>
      refine ⟨ih.ledger.close popped, fun _ => ⟨x, closings log, rfl, rfl⟩, ?_⟩
      intro stop member
      split at member
      · cases member
      · exact (t.jumps_sweep goal x.value.cell _).stops stop member
  | considered _ _ considers ih => exact (ih.considers considers).2

/-- A closed cell does not wait any more. -/
theorem Accounts.gone (accounts : t.Accounts start goal log source ahead s)
    : ∀ x ∈ closings log, ∀ n, s.Waits n → n.cell ≠ x.value.cell := by
  intro x hx n waits same
  apply accounts.ledger.not_mem_of_waits waits
  rw [same]
  exact List.mem_map_of_mem (List.mem_map_of_mem hx)

/-- The layer of closed cells shows those of the closed elements. -/
theorem Accounts.closed_iff (accounts : t.Accounts start goal log source ahead s) (p : Point)
    : s.closed.get p false = true ↔ ∃ x ∈ closings log, x.value.cell = p := by
  rw [accounts.ledger.closed]
  simp

-----------------------------------------------------------------------------------------
-- Rising estimates
-----------------------------------------------------------------------------------------

/-- The keys of the closed elements are their estimates and rise, and none of them is above the
estimate of a waiting node.
-/
structure Rising (goal : Point) (closings : List (Entry Int Node)) (s : Search t.extent)
    : Prop where
  keyed : ∀ x ∈ closings, x.key = x.value.cost + octile x.value.cell goal
  sorted : closings.Pairwise fun later earlier => earlier.key ≤ later.key
  floor : ∀ x ∈ closings, ∀ n, s.Waits n → x.key ≤ n.cost + octile n.cell goal

/-- While stops are ahead, no closed element is above the estimate of the node they come from. -/
theorem Accounts.key_le (accounts : t.Accounts start goal log source (stop :: ahead) s)
    (rising : Rising goal (closings log) s) {x : Entry Int Node} (hx : x ∈ closings log)
    : x.key ≤ source.cost + octile source.cell goal := by
  obtain ⟨latest, earlier, same, rfl⟩ := accounts.latest (List.cons_ne_nil _ _)
  have sorted := rising.sorted
  rw [← rising.keyed latest (by rw [same]; exact List.mem_cons_self)]
  rw [same] at sorted hx
  rcases List.mem_cons.mp hx with rfl | before
  · exact Int.le_refl _
  · exact (List.pairwise_cons.mp sorted).1 x before

/-- The keys rise throughout a search: the least of the waiting nodes comes out, and the stops of
its jumps have no lower estimate than itself.
-/
theorem History.rising (history : t.History start goal log source ahead s)
    (fits : t.extent.CostsFit) (free : t.walkable start = true)
    (target : t.extent.contains goal = true)
    : Rising goal (closings log) s := by
  induction history with
  | begun => exact ⟨List.forall_mem_nil _, .nil, List.forall_mem_nil _⟩
  | @closed log _ s x heap before _ popped ih =>
      have consistent := (before.accounts fits free target).ledger.consistent
      have least := consistent.least popped
      obtain ⟨_, _, entries⟩ := consistent.heap.pop? popped
      have key := consistent.keys x (entries.mem_iff.mpr List.mem_cons_self)
      have still (n : Node) (waits : (s.close heap x.value).Waits n) : s.Waits n :=
        (((consistent.close popped).2 n).mp waits).1
      have above : ∀ y ∈ closings log, y.key ≤ x.key :=
        fun y hy => key ▸ ih.floor y hy x.value least.waits
      refine ⟨?_, List.pairwise_cons.mpr ⟨above, ih.sorted⟩, ?_⟩
      · exact List.forall_mem_cons.mpr ⟨key, ih.keyed⟩
      · refine List.forall_mem_cons.mpr ⟨?_, ?_⟩
        · exact fun n waits => key ▸ least.le n (still n waits)
        · exact fun y hy n waits => ih.floor y hy n (still n waits)
  | @considered log source stop _ s s' _ before _ considers ih =>
      have accounts := before.accounts fits free target
      have considered := (accounts.considers considers).1
      rw [considers.closings_cons]
      refine ⟨ih.keyed, ih.sorted, ?_⟩
      intro y hy n waits
      rcases considered.waits waits with rfl | old
      · exact Int.le_trans (accounts.key_le ih hy) (estimate_le_reach goal source stop)
      · exact ih.floor y hy n old

/-- What is passed over costs no less than the closed node of its cell: that node's estimate was
not above the one of the node it was offered from.
-/
theorem History.passed (history : t.History start goal log source ahead s)
    (fits : t.extent.CostsFit) (free : t.walkable start = true)
    (target : t.extent.contains goal = true)
    : ∀ n, .passed n ∈ log
        → ∃ x ∈ closings log, x.value.cell = n.cell ∧ x.value.cost ≤ n.cost := by
  induction history with
  | begun => simp
  | @closed log _ _ x _ _ _ _ ih =>
      intro n member
      rcases List.mem_cons.mp member with other | old
      · cases other
      · obtain ⟨y, hy, closed⟩ := ih n old
        exact ⟨y, List.mem_cons_of_mem x hy, closed⟩
  | @considered log source stop _ _ _ _ before _ considers ih =>
      intro n member
      rw [considers.closings_cons]
      rcases List.mem_cons.mp member with rfl | old
      · cases considers with
        | passed closed =>
            have accounts := before.accounts fits free target
            have rising := before.rising fits free target
            obtain ⟨x, hx, same⟩ := (accounts.closed_iff _).mp closed
            refine ⟨x, hx, same, ?_⟩
            have floor := accounts.key_le rising hx
            have further := estimate_le_reach goal source stop
            rw [rising.keyed x hx, same] at floor
            exact Int.le_of_add_le_add_right (Int.le_trans floor further)
      · exact ih n old

-----------------------------------------------------------------------------------------
-- What happens once
-----------------------------------------------------------------------------------------

/-- A cell is closed or waits. -/
def Known (closings : List (Entry Int Node)) (s : Search t.extent) (p : Point) : Prop :=
  (∃ x ∈ closings, x.value.cell = p) ∨ ∃ c, s.Offers p c

/-- A cell that is inserted was not known. -/
theorem Accounts.not_known (accounts : t.Accounts start goal log source ahead s)
    {p : Point} (unclosed : s.closed.get p false = false) (absent : s.handles.get p none = none)
    : ¬ Known (closings log) s p := by
  intro known
  rcases known with closed | ⟨_, _, ⟨x, hx, rfl⟩, rfl, _⟩
  · rw [(accounts.closed_iff p).mpr closed] at unclosed
    cases unclosed
  · rw [accounts.ledger.consistent.handles x hx] at absent
    cases absent

/-- No cell is inserted twice, since a cell stays known once it is inserted. -/
theorem History.insertedOnce (history : t.History start goal log source ahead s)
    (fits : t.extent.CostsFit) (free : t.walkable start = true)
    (target : t.extent.contains goal = true)
    : ((insertions log).map Node.cell).Nodup
      ∧ ∀ n ∈ insertions log, Known (closings log) s n.cell := by
  induction history with
  | begun initial =>
      obtain ⟨_, begun, ledger⟩ := exists_ledger fits free target
      rw [initial] at begun
      cases begun
      refine ⟨List.nodup_singleton _, List.forall_mem_singleton.mpr (Or.inr ?_)⟩
      rcases ledger.begun with root | closed
      · exact ⟨0, _, root, rfl, Int.le_refl _⟩
      · cases closed
  | @closed log _ s x heap before _ popped ih =>
      refine ⟨ih.1, ?_⟩
      intro n member
      have still := ((before.accounts fits free target).ledger.consistent.close popped).2
      rcases ih.2 n member with ⟨y, hy, same⟩ | ⟨c, m, waits, same, cost⟩
      · exact Or.inl ⟨y, List.mem_cons_of_mem x hy, same⟩
      · by_cases closed : m.cell = x.value.cell
        · exact Or.inl ⟨x, List.mem_cons_self, closed.symm.trans same⟩
        · exact Or.inr ⟨c, m, (still m).mpr ⟨waits, closed⟩, same, cost⟩
  | @considered log source stop _ s s' event before _ considers ih =>
      have accounts := before.accounts fits free target
      have considered := (accounts.considers considers).1
      rw [considers.closings_cons]
      have still (n : Node) (member : n ∈ insertions log) : Known (closings log) s' n.cell := by
        refine (ih.2 n member).imp_right ?_
        exact fun ⟨c, offer⟩ => ⟨c, considered.keeps.offers _ _ offer⟩
      cases considers with
      | passed => exact ⟨ih.1, still⟩
      | offered => exact ⟨ih.1, still⟩
      | inserted unclosed absent =>
          have fresh := accounts.not_known unclosed absent
          constructor
          · refine List.nodup_cons.mpr ⟨?_, ih.1⟩
            intro old
            obtain ⟨n, member, same⟩ := List.mem_map.mp old
            have known := ih.2 n member
            rw [same] at known
            exact fresh known
          · refine List.forall_mem_cons.mpr ⟨?_, still⟩
            refine considered.offers.imp ?_ fun offer => ⟨_, offer⟩
            exact (accounts.closed_iff _).mp

/-- A closed cell is spared. -/
theorem History.spared (history : t.History start goal log source ahead s)
    (fits : t.extent.CostsFit) (free : t.walkable start = true)
    (target : t.extent.contains goal = true)
    : log.Pairwise Spares := by
  induction history with
  | begun => exact List.pairwise_singleton _ _
  | closed _ _ _ ih =>
      refine List.pairwise_cons.mpr ⟨?_, ih⟩
      intro earlier _ y n _ touches
      rcases touches with touches | touches <;> cases touches
  | @considered log source stop _ s _ _ before _ considers ih =>
      have accounts := before.accounts fits free target
      refine List.pairwise_cons.mpr ⟨?_, ih⟩
      rintro _ member x n rfl touches same
      have unclosed : s.closed.get n.cell false = false := by
        rcases touches with rfl | rfl
        · cases considers with
          | inserted unclosed => exact unclosed
        · cases considers with
          | offered unclosed => exact unclosed
      rw [(accounts.closed_iff _).mpr ⟨x, closed_mem_iff.mp member, same.symm⟩] at unclosed
      cases unclosed

/-- A search keeps to the rules at every moment. -/
theorem History.orderly (history : t.History start goal log source ahead s)
    (fits : t.extent.CostsFit) (free : t.walkable start = true)
    (target : t.extent.contains goal = true)
    : Orderly log s := by
  have accounts := history.accounts fits free target
  refine
    { rising := (history.rising fits free target).sorted
      insertedOnce := (history.insertedOnce fits free target).1
      closedOnce := ?_
      bounded := ?_
      spared := history.spared fits free target
      gone := accounts.gone
      passed := history.passed fits free target }
  · have distinct := accounts.ledger.distinct
    rwa [List.map_map] at distinct
  · have count := accounts.ledger.length_le
    rwa [List.length_map] at count

-----------------------------------------------------------------------------------------
-- The end of a search
-----------------------------------------------------------------------------------------

/-- The stops ahead are all considered without an error, by induction over them. -/
theorem History.expand (history : t.History start goal log source ahead s)
    (fits : t.extent.CostsFit) (free : t.walkable start = true)
    (target : t.extent.contains goal = true)
    : ∃ log' s',
        ahead.foldlM (Search.consider goal source) s = .ok s'
        ∧ t.History start goal log' source [] s'
        ∧ closings log' = closings log := by
  induction ahead generalizing log s with
  | nil => exact ⟨log, s, rfl, history, rfl⟩
  | cons stop ahead ih =>
      obtain ⟨ledger, latest, sweeps⟩ := history.accounts fits free target
      obtain ⟨x, earlier, same, rfl⟩ := latest (List.cons_ne_nil _ _)
      obtain ⟨d, c, sweep⟩ := sweeps stop List.mem_cons_self
      rw [same] at ledger
      obtain ⟨s₁, considered, _⟩ := ledger.consider fits target sweep
      obtain ⟨event, considers⟩ := exists_considers considered
      obtain ⟨log', s', others, further, closings⟩ := ih (history.considered considered considers)
      refine ⟨log', s', ?_, further, closings.trans (considers.closings_cons log)⟩
      rw [List.foldlM_cons, considered]
      exact others

/-- A search that has not closed the goal yet halts within as many rounds as there are other cells
and one more, by induction over the rounds.
-/
theorem History.rounds (history : t.History start goal log source [] s)
    (unreached : ∀ x ∈ closings log, x.value.cell ≠ goal)
    (fits : t.extent.CostsFit) (free : t.walkable start = true)
    (target : t.extent.contains goal = true) {k : Nat}
    (enough : t.extent.area < (closings log).length + k)
    : t.Halts start goal (t.rounds goal k s) := by
  induction k generalizing log source s with
  | zero =>
      have bounded := (history.orderly fits free target).bounded
      omega
  | succ k ih =>
      rw [Terrain.rounds, Terrain.advance]
      cases popped : s.openSet.pop? with
      | none => exact .exhausted history popped
      | some result =>
          obtain ⟨x, heap⟩ := result
          have closed := history.closed unreached popped
          by_cases reached : x.value.cell = goal
          · rw [if_pos reached] at closed
            simp only [if_pos reached]
            exact .reached closed reached
          · rw [if_neg reached] at closed
            obtain ⟨log', s', expanded, further, same⟩ := closed.expand fits free target
            change t.expand goal x.value (s.close heap x.value) = .ok s' at expanded
            change closings log' = x :: closings log at same
            simp only [if_neg reached, expanded, Except.map]
            refine ih further ?_ ?_
            · rw [same]
              exact List.forall_mem_cons.mpr ⟨reached, unreached⟩
            · rw [same, List.length_cons]
              omega

/-- A search keeps to the rules at every moment, and it halts. -/
theorem search_orderly (fits : t.extent.CostsFit) (free : t.walkable start = true)
    (target : t.walkable goal = true)
    : (∀ log source ahead s, t.History start goal log source ahead s → Orderly log s)
      ∧ t.Halts start goal (t.search start goal) := by
  have target := contains_of_walkable target
  constructor
  · exact fun _ _ _ _ history => history.orderly fits free target
  · obtain ⟨s, begun, _⟩ := exists_ledger fits free target
    rw [search, begun]
    exact (History.begun begun).rounds (List.forall_mem_nil _) fits free target
      (by omega)

theorem search_orderly_squeeze
    : GridMap.squeeze.extent.CostsFit
      ∧ GridMap.squeeze.walkable ⟨0, 0⟩ = true
      ∧ GridMap.squeeze.walkable ⟨3, 0⟩ = true
      ∧ (∀ log source ahead s,
          GridMap.squeeze.terrain.History ⟨0, 0⟩ ⟨3, 0⟩ log source ahead s → Orderly log s)
      ∧ GridMap.squeeze.terrain.Halts ⟨0, 0⟩ ⟨3, 0⟩
          (GridMap.squeeze.terrain.search ⟨0, 0⟩ ⟨3, 0⟩) := by
  have fits : GridMap.squeeze.extent.CostsFit := by decide
  have free : GridMap.squeeze.walkable ⟨0, 0⟩ = true := by decide +kernel
  have target : GridMap.squeeze.walkable ⟨3, 0⟩ = true := by decide +kernel
  exact ⟨fits, free, target, search_orderly fits free target⟩

end Terrain

end Wayfinding
