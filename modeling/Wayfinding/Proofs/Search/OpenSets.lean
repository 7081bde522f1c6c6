import Wayfinding.Proofs.Bounds
import Wayfinding.Proofs.Heap.Validity
import Wayfinding.Proofs.Walks
import Wayfinding.Search.State

/-! The open set of a search and the layers that go with it. A cell waits under the handle that
its layer shows, at most once and only while it is not closed. Considering a stop either passes it
over or takes the new way to it; nothing else happens to the open set until the least node comes
out.
-/

namespace Wayfinding

namespace Search

variable {e : Extent} {s s' : Search e} {goal : Point} {n : Node} {handle : Nat}

-----------------------------------------------------------------------------------------
-- Waiting nodes
-----------------------------------------------------------------------------------------

/-- The node is in the open set. -/
def Waits (s : Search e) (n : Node) : Prop :=
  ∃ x ∈ s.openSet.entries, x.value = n

/-- The cell is in the open set with a way at this cost or below. -/
def Offers (s : Search e) (p : Point) (c : Int) : Prop :=
  ∃ n, s.Waits n ∧ n.cell = p ∧ n.cost ≤ c

/-- The element for a node: its key is the cost of the way and the octile cost to the goal. -/
def element (goal : Point) (handle : Nat) (n : Node) : Entry Int Node :=
  ⟨handle, n.cost + octile n.cell goal, n⟩

/-- The open set, the handles and the closed cells agree. -/
structure Consistent (s : Search e) (goal : Point) : Prop where
  heap : s.openSet.Valid
  capacity : s.openSet.capacity = e.area
  inside : ∀ x ∈ s.openSet.entries, e.contains x.value.cell = true
  keys : ∀ x ∈ s.openSet.entries, x.key = x.value.cost + octile x.value.cell goal
  handles : ∀ x ∈ s.openSet.entries, s.handles.get x.value.cell none = some x.handle
  named : ∀ p handle, s.handles.get p none = some handle
    → ∃ x ∈ s.openSet.entries, x.handle = handle ∧ x.value.cell = p
  apart : ∀ x ∈ s.openSet.entries, s.closed.get x.value.cell false = false

/-- No cell is in the open set twice. -/
theorem Consistent.entry_eq (consistent : s.Consistent goal) {x y : Entry Int Node}
    (hx : x ∈ s.openSet.entries) (hy : y ∈ s.openSet.entries)
    (same : x.value.cell = y.value.cell)
    : x = y := by
  have handleX := consistent.handles x hx
  rw [same, consistent.handles y hy] at handleX
  exact consistent.heap.entry_eq hx hy (Option.some.inj handleX).symm

/-- The handle of an element names its node. -/
theorem Consistent.get?_eq (consistent : s.Consistent goal) {x : Entry Int Node}
    (hx : x ∈ s.openSet.entries)
    : s.openSet.get? x.handle = some x.value := by
  rw [FibonacciHeap.get?, consistent.heap.entry?_eq_some.mpr ⟨hx, rfl⟩]
  rfl

/-- The cells in the open set are all different. -/
theorem Consistent.distinct (consistent : s.Consistent goal)
    : (s.openSet.entries.map fun x => x.value.cell).Nodup := by
  refine List.Nodup.map_on ?_ consistent.heap.distinct.of_map
  intro x hx y hy same
  exact consistent.entry_eq hx hy same

/-- While a cell inside does not wait, there is room for it. -/
theorem Consistent.room (consistent : s.Consistent goal) {p : Point}
    (inside : e.contains p = true) (absent : s.handles.get p none = none)
    : s.openSet.size < s.openSet.capacity := by
  have other : p ∉ s.openSet.entries.map fun x => x.value.cell := by
    intro there
    obtain ⟨x, hx, rfl⟩ := List.mem_map.mp there
    rw [consistent.handles x hx] at absent
    cases absent
  have count := Extent.length_le_area (e := e)
    (List.nodup_cons.mpr ⟨other, consistent.distinct⟩) (by
      intro q hq
      rcases List.mem_cons.mp hq with rfl | old
      · exact inside
      · obtain ⟨x, hx, rfl⟩ := List.mem_map.mp old
        exact consistent.inside x hx)
  rw [List.length_cons, List.length_map] at count
  rw [consistent.capacity, consistent.heap.size_eq]
  exact count

-----------------------------------------------------------------------------------------
-- Putting a node into the open set
-----------------------------------------------------------------------------------------

/-- The node is the only one of its cell, under the given handle, and all else is as before. -/
structure Puts (s : Search e) (goal : Point) (n : Node) (handle : Nat) (s' : Search e) : Prop where
  heap : s'.openSet.Valid
  capacity : s'.openSet.capacity = s.openSet.capacity
  members : ∀ x, x ∈ s'.openSet.entries
    ↔ x = element goal handle n ∨ x ∈ s.openSet.entries ∧ x.value.cell ≠ n.cell
  handles : ∀ p, s'.handles.get p none
    = if n.cell = p then some handle else s.handles.get p none
  closed : s'.closed = s.closed

/-- A node of a cell that is not closed may be put into the open set. -/
theorem Consistent.puts (consistent : s.Consistent goal) (inside : e.contains n.cell = true)
    (unclosed : s.closed.get n.cell false = false) (puts : s.Puts goal n handle s')
    : s'.Consistent goal := by
  refine ⟨puts.heap, puts.capacity.trans consistent.capacity, ?_, ?_, ?_, ?_, ?_⟩
  · intro x hx
    rcases (puts.members x).mp hx with rfl | ⟨old, _⟩
    · exact inside
    · exact consistent.inside x old
  · intro x hx
    rcases (puts.members x).mp hx with rfl | ⟨old, _⟩
    · rfl
    · exact consistent.keys x old
  · intro x hx
    rw [puts.handles]
    rcases (puts.members x).mp hx with rfl | ⟨old, other⟩
    · exact if_pos rfl
    · rw [if_neg (Ne.symm other)]
      exact consistent.handles x old
  · intro p handle' shown
    rw [puts.handles] at shown
    split at shown
    · rename_i same
      cases shown
      exact ⟨_, (puts.members _).mpr (Or.inl rfl), rfl, same⟩
    · rename_i other
      obtain ⟨x, hx, named, rfl⟩ := consistent.named p handle' shown
      exact ⟨x, (puts.members x).mpr (Or.inr ⟨hx, Ne.symm other⟩), named, rfl⟩
  · intro x hx
    rw [puts.closed]
    rcases (puts.members x).mp hx with rfl | ⟨old, _⟩
    · exact unclosed
    · exact consistent.apart x old

/-- The new node waits, and so do those of other cells. -/
theorem Puts.waits (puts : s.Puts goal n handle s') (m : Node)
    : s'.Waits m ↔ m = n ∨ s.Waits m ∧ m.cell ≠ n.cell := by
  constructor
  · intro h
    obtain ⟨x, hx, rfl⟩ := h
    rcases (puts.members x).mp hx with rfl | ⟨old, other⟩
    · exact Or.inl rfl
    · exact Or.inr ⟨⟨x, old, rfl⟩, other⟩
  · intro h
    rcases h with rfl | ⟨⟨x, hx, rfl⟩, other⟩
    · exact ⟨_, (puts.members _).mpr (Or.inl rfl), rfl⟩
    · exact ⟨x, (puts.members x).mpr (Or.inr ⟨hx, other⟩), rfl⟩

/-- A node of a cell that does not wait is put into the open set. -/
theorem Consistent.discover (consistent : s.Consistent goal) (source : Node) {stop : Stop}
    (cost : Int) (inside : e.contains stop.cell = true)
    (absent : s.handles.get stop.cell none = none)
    : ∃ s' handle,
        s.discover source stop cost (cost + octile stop.cell goal) = .ok s'
        ∧ s.Puts goal ⟨stop.cell, cost, some stop.heading⟩ handle s'
        ∧ s'.cameFrom = s.cameFrom.set stop.cell (some source.cell) := by
  obtain ⟨handle, heap, inserted, _, valid, capacity, entries⟩ :=
    consistent.heap.insert (consistent.room inside absent) (cost + octile stop.cell goal)
      ⟨stop.cell, cost, some stop.heading⟩
  refine ⟨{ s with
      openSet := heap
      handles := s.handles.set stop.cell (some handle)
      cameFrom := s.cameFrom.set stop.cell (some source.cell) },
    handle, ?_, ⟨valid, capacity, ?_, ?_, rfl⟩, rfl⟩
  · simp only [Search.discover, inserted, MapFault.ofHeap]
    rfl
  · intro x
    rw [entries.mem_iff, List.mem_cons]
    refine or_congr_right (iff_self_and.mpr fun old same => ?_)
    have shown := consistent.handles x old
    rw [same, absent] at shown
    cases shown
  · intro p
    rw [Layer.get_set]
    by_cases same : stop.cell = p
    · subst same
      simp [inside]
    · simp [same]

/-- A dearer way to a waiting cell is replaced. -/
theorem Consistent.improve (consistent : s.Consistent goal) (source : Node) {stop : Stop}
    {cost : Int} {x : Entry Int Node} (hx : x ∈ s.openSet.entries)
    (same : x.value.cell = stop.cell) (cheaper : cost < x.value.cost)
    : ∃ s',
        s.improve source stop cost (cost + octile stop.cell goal) x.handle = .ok s'
        ∧ s.Puts goal ⟨stop.cell, cost, some stop.heading⟩ x.handle s'
        ∧ s'.cameFrom = s.cameFrom.set stop.cell (some source.cell) := by
  have found := consistent.get?_eq hx
  have lower : cost + octile stop.cell goal ≤ x.key := by
    rw [consistent.keys x hx, same]
    omega
  obtain ⟨heap, decreased, valid, capacity, members⟩ := consistent.heap.replace hx
    (fun n => { n with cost := cost, heading := some stop.heading }) lower
  refine ⟨{ s with
      openSet := heap
      cameFrom := s.cameFrom.set stop.cell (some source.cell) },
    ?_, ⟨valid, capacity, ?_, ?_, rfl⟩, rfl⟩
  · simp only [Search.improve, found, if_pos cheaper, decreased]
    rfl
  · intro y
    rw [members, same]
    refine or_congr_right (and_congr_right fun hy => not_congr ⟨?_, ?_⟩)
    · exact fun equal => consistent.heap.entry_eq hy hx equal ▸ same
    · exact fun equal => congrArg Entry.handle (consistent.entry_eq hy hx (equal.trans same.symm))
  · intro p
    by_cases same' : stop.cell = p
    · subst same'
      rw [if_pos rfl, ← same]
      exact consistent.handles x hx
    · rw [if_neg same']

-----------------------------------------------------------------------------------------
-- Considering a stop
-----------------------------------------------------------------------------------------

/-- The node for a stop that is reached from `source`. -/
def reach (source : Node) (stop : Stop) : Node :=
  ⟨stop.cell, source.cost + octile source.cell stop.cell, some stop.heading⟩

/-- What considering the node `n` can do: its cell is closed or waits with a way as cheap and
nothing changes, or the new way is cheaper than any known one and is taken.
-/
inductive Considered (s : Search e) (goal : Point) (source n : Node) : Search e → Prop
  | passed (known : s.closed.get n.cell false = true ∨ s.Offers n.cell n.cost)
    : s.Considered goal source n s
  | taken {s' : Search e} {handle : Nat} (unclosed : s.closed.get n.cell false = false)
    (cheaper : ∀ m, s.Waits m → m.cell = n.cell → n.cost < m.cost)
    (puts : s.Puts goal n handle s')
    (cameFrom : s'.cameFrom = s.cameFrom.set n.cell (some source.cell))
    : s.Considered goal source n s'

private theorem orOverflow_int32? {c : Int} (nonneg : 0 ≤ c) (fits : c ≤ 2147483647)
    : MapFault.orOverflow (int32? c) = .ok c := by
  rw [int32?_of_fits (by unfold InInt32; omega), MapFault.orOverflow]

/-- As long as the costs fit, a stop that is not closed is discovered or improved. -/
private theorem consider_of_fits {source : Node} {stop : Stop}
    (unclosed : s.closed.get stop.cell false = false) (nonneg : 0 ≤ source.cost)
    (fits : (reach source stop).cost + octile stop.cell goal ≤ 2147483647)
    : consider goal source s stop
      = (s.handles.get stop.cell none).elim
          (s.discover source stop (reach source stop).cost
            ((reach source stop).cost + octile stop.cell goal))
          (s.improve source stop (reach source stop).cost
            ((reach source stop).cost + octile stop.cell goal)) := by
  have total : source.cost + octile source.cell stop.cell + octile stop.cell goal ≤ 2147483647 :=
    fits
  have run := octile_nonneg source.cell stop.cell
  have rest := octile_nonneg stop.cell goal
  rw [consider, unclosed]
  simp only [Bool.false_eq_true, if_false, octile?]
  rw [orOverflow_int32? run (by omega), orOverflow_int32? rest (by omega)]
  simp only [bind, Except.bind]
  rw [orOverflow_int32? (by omega) (by omega)]
  dsimp only
  rw [orOverflow_int32? (by omega) total]
  cases s.handles.get stop.cell none <;> rfl

/-- What happens in a search: a node is put into the open set, or offered for a cell that waits there
already, or passed over because its cell is closed; or the least node is closed.
-/
inductive Event where
  | inserted (n : Node)
  | offered (n : Node)
  | passed (n : Node)
  | closed (x : Entry Int Node)
deriving DecidableEq

/-- Which event it is to consider a stop, and the search afterwards. -/
inductive Considers (s : Search e) (goal : Point) (source : Node) (stop : Stop)
    : Event → Search e → Prop
  | passed (closed : s.closed.get stop.cell false = true)
    : s.Considers goal source stop (.passed (reach source stop)) s
  | inserted {s' : Search e} (unclosed : s.closed.get stop.cell false = false)
    (absent : s.handles.get stop.cell none = none)
    (discovered : s.discover source stop (reach source stop).cost
      ((reach source stop).cost + octile stop.cell goal) = .ok s')
    : s.Considers goal source stop (.inserted (reach source stop)) s'
  | offered {s' : Search e} {handle : Nat} (unclosed : s.closed.get stop.cell false = false)
    (shown : s.handles.get stop.cell none = some handle)
    (improved : s.improve source stop (reach source stop).cost
      ((reach source stop).cost + octile stop.cell goal) handle = .ok s')
    : s.Considers goal source stop (.offered (reach source stop)) s'

/-- To consider a stop is one of these events unless it fails. -/
theorem exists_considers {source : Node} {stop : Stop}
    (considered : consider goal source s stop = .ok s')
    : ∃ event, s.Considers goal source stop event s' := by
  rw [consider] at considered
  cases closed : s.closed.get stop.cell false with
  | true =>
      rw [if_pos closed] at considered
      cases considered
      exact ⟨_, .passed closed⟩
  | false =>
      rw [if_neg (by simp [closed])] at considered
      obtain ⟨run, fits, considered⟩ := MapFault.orOverflow_bind_eq_ok.mp considered
      obtain ⟨rfl, _⟩ := int32?_eq_some.mp fits
      obtain ⟨cost, fits, considered⟩ := MapFault.orOverflow_bind_eq_ok.mp considered
      obtain ⟨rfl, _⟩ := int32?_eq_some.mp fits
      obtain ⟨rest, fits, considered⟩ := MapFault.orOverflow_bind_eq_ok.mp considered
      obtain ⟨rfl, _⟩ := int32?_eq_some.mp fits
      obtain ⟨total, fits, considered⟩ := MapFault.orOverflow_bind_eq_ok.mp considered
      obtain ⟨rfl, _⟩ := int32?_eq_some.mp fits
      cases shown : s.handles.get stop.cell none with
      | none =>
          rw [shown] at considered
          exact ⟨_, .inserted closed shown considered⟩
      | some handle =>
          rw [shown] at considered
          exact ⟨_, .offered closed shown considered⟩

/-- Whichever event it is, it passes the node over or takes it. -/
theorem Consistent.considers (consistent : s.Consistent goal) {source : Node} {stop : Stop}
    {event : Event} (inside : e.contains stop.cell = true)
    (h : s.Considers goal source stop event s')
    : s'.Consistent goal ∧ s.Considered goal source (reach source stop) s' := by
  cases h with
  | passed closed => exact ⟨consistent, .passed (Or.inl closed)⟩
  | inserted unclosed absent discovered =>
      obtain ⟨s₁, handle, found, puts, cameFrom⟩ := consistent.discover source
        (reach source stop).cost inside absent
      rw [found] at discovered
      cases discovered
      refine ⟨consistent.puts inside unclosed puts, .taken unclosed ?_ puts cameFrom⟩
      intro m waits same
      obtain ⟨x, hx, rfl⟩ := waits
      have waiting := consistent.handles x hx
      rw [same, reach, absent] at waiting
      cases waiting
  | offered unclosed shown improved =>
      obtain ⟨x, hx, rfl, same⟩ := consistent.named _ _ shown
      by_cases cheaper : (reach source stop).cost < x.value.cost
      · obtain ⟨s₁, found, puts, cameFrom⟩ := consistent.improve source hx same cheaper
        rw [found] at improved
        cases improved
        refine ⟨consistent.puts inside unclosed puts, .taken unclosed ?_ puts cameFrom⟩
        intro m waits same'
        obtain ⟨y, hy, rfl⟩ := waits
        rw [consistent.entry_eq hy hx (same'.trans same.symm)]
        exact cheaper
      · rw [Search.improve, consistent.get?_eq hx] at improved
        simp only [if_neg cheaper] at improved
        cases improved
        exact ⟨consistent, .passed (Or.inr ⟨x.value, ⟨x, hx, rfl⟩, same, Int.not_lt.mp cheaper⟩)⟩

/-- A stop inside can always be discovered or improved unless it is closed. -/
private theorem Consistent.exists_taken (consistent : s.Consistent goal) (source : Node)
    {stop : Stop} (inside : e.contains stop.cell = true)
    : ∃ s',
        (s.handles.get stop.cell none).elim
          (s.discover source stop (reach source stop).cost
            ((reach source stop).cost + octile stop.cell goal))
          (s.improve source stop (reach source stop).cost
            ((reach source stop).cost + octile stop.cell goal))
        = .ok s' := by
  cases shown : s.handles.get stop.cell none with
  | none =>
      obtain ⟨s', _, found, _⟩ := consistent.discover source (reach source stop).cost inside shown
      exact ⟨s', found⟩
  | some handle =>
      obtain ⟨x, hx, rfl, same⟩ := consistent.named _ _ shown
      by_cases cheaper : (reach source stop).cost < x.value.cost
      · obtain ⟨s', found, _⟩ := consistent.improve source hx same cheaper
        exact ⟨s', found⟩
      · refine ⟨s, ?_⟩
        rw [Option.elim_some, Search.improve, consistent.get?_eq hx]
        exact if_neg cheaper

/-- Considering a stop does one of these things as long as the costs fit. -/
theorem Consistent.consider (consistent : s.Consistent goal) {source : Node} {stop : Stop}
    (inside : e.contains stop.cell = true) (nonneg : 0 ≤ source.cost)
    (fits : s.closed.get stop.cell false = false
      → (reach source stop).cost + octile stop.cell goal ≤ 2147483647)
    : ∃ s',
        consider goal source s stop = .ok s'
        ∧ s'.Consistent goal
        ∧ s.Considered goal source (reach source stop) s' := by
  have found : ∃ s', Search.consider goal source s stop = .ok s' := by
    cases closed : s.closed.get stop.cell false with
    | true => exact ⟨s, by rw [Search.consider, if_pos closed]⟩
    | false =>
        rw [consider_of_fits closed nonneg (fits closed)]
        exact consistent.exists_taken source inside
  obtain ⟨s', considered⟩ := found
  obtain ⟨event, considers⟩ := exists_considers considered
  exact ⟨s', considered, consistent.considers inside considers⟩

-----------------------------------------------------------------------------------------
-- Closing the least node
-----------------------------------------------------------------------------------------

/-- What is left in the open set are the nodes of other cells. -/
private theorem Consistent.mem_rest (consistent : s.Consistent goal) {x : Entry Int Node}
    {heap : FibonacciHeap Int Node} (popped : s.openSet.pop? = some (x, heap))
    (y : Entry Int Node)
    : y ∈ heap.entries ↔ y ∈ s.openSet.entries ∧ y.value.cell ≠ x.value.cell := by
  obtain ⟨_, _, entries⟩ := consistent.heap.pop? popped
  have hx : x ∈ s.openSet.entries := entries.mem_iff.mpr List.mem_cons_self
  constructor
  · intro hy
    have old : y ∈ s.openSet.entries := entries.mem_iff.mpr (List.mem_cons_of_mem x hy)
    refine ⟨old, fun same => ?_⟩
    have unique := ((entries.map Entry.handle).nodup_iff.mp consistent.heap.distinct).notMem
    rw [consistent.entry_eq old hx same] at hy
    exact unique (List.mem_map_of_mem hy)
  · intro h
    obtain ⟨old, other⟩ := h
    rcases List.mem_cons.mp (entries.mem_iff.mp old) with rfl | rest
    · exact absurd rfl other
    · exact rest

/-- The node waits, and no waiting node has a lower estimate. -/
structure Least (s : Search e) (goal : Point) (n : Node) : Prop where
  waits : s.Waits n
  le : ∀ m, s.Waits m → n.cost + octile n.cell goal ≤ m.cost + octile m.cell goal

/-- The node with the lowest estimate comes out first. -/
theorem Consistent.least (consistent : s.Consistent goal) {x : Entry Int Node}
    {heap : FibonacciHeap Int Node} (popped : s.openSet.pop? = some (x, heap))
    : s.Least goal x.value := by
  have shown : s.openSet.peek? = some x := by
    rw [← FibonacciHeap.pop?_map_fst, popped]
    rfl
  obtain ⟨hx, least⟩ := consistent.heap.peek?_least shown
  refine ⟨⟨x, hx, rfl⟩, ?_⟩
  intro m h
  obtain ⟨y, hy, rfl⟩ := h
  rw [← consistent.keys x hx, ← consistent.keys y hy]
  exact least y hy

/-- Closing the least node takes it out of the open set and leaves the others there. -/
theorem Consistent.close (consistent : s.Consistent goal) {x : Entry Int Node}
    {heap : FibonacciHeap Int Node} (popped : s.openSet.pop? = some (x, heap))
    : (s.close heap x.value).Consistent goal
      ∧ ∀ m, (s.close heap x.value).Waits m ↔ s.Waits m ∧ m.cell ≠ x.value.cell := by
  obtain ⟨valid, capacity, _⟩ := consistent.heap.pop? popped
  have rest := consistent.mem_rest popped
  refine ⟨⟨valid, capacity.trans consistent.capacity, ?_, ?_, ?_, ?_, ?_⟩, ?_⟩
  · exact fun y hy => consistent.inside y ((rest y).mp hy).1
  · exact fun y hy => consistent.keys y ((rest y).mp hy).1
  · intro y hy
    obtain ⟨old, other⟩ := (rest y).mp hy
    rw [Search.close, Layer.get_set, if_neg fun same => other same.1.symm]
    exact consistent.handles y old
  · intro p handle shown
    rw [Search.close, Layer.get_set] at shown
    split at shown
    · cases shown
    · rename_i other
      obtain ⟨y, hy, named, rfl⟩ := consistent.named p handle shown
      have differ : y.value.cell ≠ x.value.cell := fun same =>
        other ⟨same.symm, consistent.inside y hy⟩
      exact ⟨y, (rest y).mpr ⟨hy, differ⟩, named, rfl⟩
  · intro y hy
    obtain ⟨old, other⟩ := (rest y).mp hy
    rw [Search.close, Layer.get_set, if_neg fun same => other same.1.symm]
    exact consistent.apart y old
  · intro m
    constructor
    · intro h
      obtain ⟨y, hy, rfl⟩ := h
      obtain ⟨old, other⟩ := (rest y).mp hy
      exact ⟨⟨y, old, rfl⟩, other⟩
    · intro h
      obtain ⟨⟨y, hy, rfl⟩, other⟩ := h
      exact ⟨y, (rest y).mpr ⟨hy, other⟩, rfl⟩

theorem not_waits_of_pop?_eq_none (empty : s.openSet.pop? = none) (m : Node) : ¬ s.Waits m := by
  intro h
  obtain ⟨x, hx, _⟩ := h
  rw [FibonacciHeap.pop?_eq_none.mp empty] at hx
  cases hx

-----------------------------------------------------------------------------------------
-- The beginning
-----------------------------------------------------------------------------------------

/-- A search begins with nothing but the start in its open set. -/
theorem exists_initial {start goal : Point} (inside : e.contains start = true)
    (fits : octile start goal ≤ 2147483647)
    : ∃ s,
        initial e start goal = .ok s
        ∧ s.Consistent goal
        ∧ (∀ m, s.Waits m ↔ m = ⟨start, 0, none⟩)
        ∧ s.closed = .fill e false
        ∧ s.cameFrom = .fill e none := by
  have created : FibonacciHeap.empty Int Node e.area = .ok ⟨[], [], 0, 0, e.area⟩ :=
    if_neg (Nat.ne_of_gt e.area_pos)
  obtain ⟨valid, nothing, capacity⟩ := FibonacciHeap.valid_empty created
  obtain ⟨handle, heap, inserted, _, validHeap, capacityHeap, entries⟩ :=
    valid.insert e.area_pos (octile start goal) ⟨start, 0, none⟩
  let before : Search e := ⟨⟨[], [], 0, 0, e.area⟩, .fill e none, .fill e false, .fill e none⟩
  have absent (x : Entry Int Node) : x ∉ before.openSet.entries := by simp [before, nothing]
  have consistent : before.Consistent goal := by
    refine ⟨valid, capacity, ?_, ?_, ?_, ?_, ?_⟩
    · exact fun x hx => absurd hx (absent x)
    · exact fun x hx => absurd hx (absent x)
    · exact fun x hx => absurd hx (absent x)
    · simp [before, Layer.get_fill]
    · exact fun x hx => absurd hx (absent x)
  let s : Search e :=
    ⟨heap, (Layer.fill e none).set start (some handle), .fill e false, .fill e none⟩
  have puts : before.Puts goal ⟨start, 0, none⟩ handle s := by
    refine ⟨validHeap, capacityHeap, ?_, ?_, rfl⟩
    · intro x
      rw [entries.mem_iff, nothing]
      simp [element]
    · intro p
      rw [Layer.get_set]
      by_cases same : start = p
      · subst same
        simp [inside]
      · simp [same, before]
  refine ⟨s, ?_, consistent.puts inside ?_ puts, ?_, rfl, rfl⟩
  · rw [initial, created, octile?, orOverflow_int32? (octile_nonneg start goal) fits]
    simp only [MapFault.ofHeap, bind, Except.bind, inserted]
    rfl
  · simp [before, Layer.get_fill, inside]
  · intro m
    rw [puts.waits]
    constructor
    · intro h
      rcases h with rfl | ⟨⟨x, hx, _⟩, _⟩
      · rfl
      · exact absurd hx (absent x)
    · exact Or.inl

end Search

end Wayfinding
