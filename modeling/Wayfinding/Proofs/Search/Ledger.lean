import Wayfinding.Proofs.Search.Bends
import Wayfinding.Proofs.Search.OpenSets

/-! What a search has on record: the nodes that it has closed, the latest first, and for every
node that it knows the way by which it got there. The open set changes in two ways only, and both
keep this record.
-/

namespace Wayfinding

-----------------------------------------------------------------------------------------
-- Offers of the open set
-----------------------------------------------------------------------------------------

namespace Search

variable {e : Extent} {s s' s'' : Search e} {goal : Point} {source n : Node}

/-- No cell is closed or opened, and every waiting cell waits with a way as cheap as before. -/
structure Keeps (s s' : Search e) : Prop where
  closed : s'.closed = s.closed
  offers : ∀ p c, s.Offers p c → s'.Offers p c

theorem Keeps.refl (s : Search e) : s.Keeps s :=
  ⟨rfl, fun _ _ offer => offer⟩

theorem Keeps.trans (first : s.Keeps s') (second : s'.Keeps s'') : s.Keeps s'' :=
  ⟨second.closed.trans first.closed, fun p c offer => second.offers p c (first.offers p c offer)⟩

/-- Considering a node makes no offer worse. -/
theorem Considered.keeps (h : s.Considered goal source n s') : s.Keeps s' := by
  cases h with
  | passed => exact .refl s
  | taken _ cheaper puts _ =>
      refine ⟨puts.closed, ?_⟩
      intro p c h
      obtain ⟨m, waits, rfl, cost⟩ := h
      by_cases same : m.cell = n.cell
      · have less := cheaper m waits same
        exact ⟨n, (puts.waits n).mpr (Or.inl rfl), same.symm, by omega⟩
      · exact ⟨m, (puts.waits m).mpr (Or.inr ⟨waits, same⟩), rfl, cost⟩

/-- A considered node is closed, or its cell waits with a way as cheap. -/
theorem Considered.offers (h : s.Considered goal source n s')
    : s.closed.get n.cell false = true ∨ s'.Offers n.cell n.cost := by
  cases h with
  | passed known => exact known
  | taken _ _ puts _ =>
      exact Or.inr ⟨n, (puts.waits n).mpr (Or.inl rfl), rfl, Int.le_refl _⟩

end Search

namespace Terrain

variable {t : Terrain} {start goal x : Point} {earlier rest : List Node} {n m source : Node}
  {cameFrom : Layer t.extent (Option Point)} {s s' : Search t.extent} {d f : Direction} {c : Int}

-----------------------------------------------------------------------------------------
-- Ways to nodes
-----------------------------------------------------------------------------------------

/-- If a run led to the cell, its last step was the last one of a walk at this cost. -/
def Arrives (t : Terrain) (start x : Point) (heading : Option Direction) (c : Int) : Prop :=
  ∀ d, heading = some d → ∃ y r, x = y + d.delta ∧ c = r + d.cost ∧ t.Walk start y r

/-- Where a node comes from: it is the start, or a bend leads to it from a node closed earlier. -/
inductive Link (t : Terrain) (start : Point) (cameFrom : Layer t.extent (Option Point))
    (earlier : List Node) (n : Node) : Prop
  | root (isStart : n = ⟨start, 0, none⟩) (origin : cameFrom.get n.cell none = none)
    : t.Link start cameFrom earlier n
  | bend {m : Node} {d f : Direction} {i j : Nat} (before : m ∈ earlier)
    (recorded : cameFrom.get n.cell none = some m.cell) (clear : t.Bend m.cell d f i j)
    (cell : n.cell = (m.cell.along d i).along f j) (moved : 0 < i + j)
    (cost : n.cost = m.cost + octile m.cell n.cell)
    : t.Link start cameFrom earlier n

/-- The cost of a node is that of a walk, its heading is that of the last step, and it has a link
to the nodes closed earlier, of which there are enough to bound its cost.
-/
structure Sound (t : Terrain) (start : Point) (cameFrom : Layer t.extent (Option Point))
    (earlier : List Node) (n : Node) : Prop where
  walk : t.Walk start n.cell n.cost
  arrives : t.Arrives start n.cell n.heading n.cost
  link : t.Link start cameFrom earlier n
  cost_le : n.cost ≤ t.extent.budget earlier.length

/-- Only the record of the node's own cell matters. -/
theorem Sound.of_get_eq {cameFrom' : Layer t.extent (Option Point)}
    (sound : t.Sound start cameFrom earlier n)
    (same : cameFrom'.get n.cell none = cameFrom.get n.cell none)
    : t.Sound start cameFrom' earlier n := by
  refine { sound with link := ?_ }
  cases sound.link with
  | root isStart origin => exact .root isStart (same.trans origin)
  | bend before recorded clear cell moved cost =>
      exact .bend before (same.trans recorded) clear cell moved cost

/-- More closed nodes do no harm. -/
theorem Sound.cons (sound : t.Sound start cameFrom earlier n) (m : Node)
    : t.Sound start cameFrom (m :: earlier) n := by
  refine { sound with link := ?_, cost_le := ?_ }
  · cases sound.link with
    | root isStart origin => exact .root isStart origin
    | bend before recorded clear cell moved cost =>
        exact .bend (List.mem_cons_of_mem m before) recorded clear cell moved cost
  · exact Int.le_trans sound.cost_le (Extent.budget_le (Nat.le_succ _))

theorem Sound.inside (sound : t.Sound start cameFrom earlier n)
    : t.extent.contains n.cell = true :=
  contains_of_walkable sound.walk.walkable

/-- A stop of a jump from the node closed last is as sound as that node. -/
theorem Sound.reach {cameFrom' : Layer t.extent (Option Point)} {stop : Stop}
    (sound : t.Sound start cameFrom rest source)
    (sweep : t.Sweep goal source.cell d stop.cell stop.heading c)
    (recorded : cameFrom'.get stop.cell none = some source.cell)
    : t.Sound start cameFrom' (source :: rest) (Search.reach source stop) := by
  have free := sound.walk.walkable
  obtain rfl := sweep.cost_eq free
  have walk := sound.walk.trans (sweep.walk free)
  refine ⟨walk, ?_, ?_, ?_⟩
  · intro _ h
    cases h
    obtain ⟨y, r, cell, cost, before⟩ := sweep.last_step free
    refine ⟨y, source.cost + r, cell, ?_, sound.walk.trans before⟩
    simp only [Search.reach, cost]
    omega
  · obtain ⟨g, k, i, j, clear, cell, moved⟩ := sweep.bend free
    exact .bend List.mem_cons_self recorded clear cell moved rfl
  · have run := Extent.octile_le_side sound.inside (contains_of_walkable walk.walkable)
    have before := sound.cost_le
    simp only [Search.reach, List.length_cons, Extent.budget_succ]
    omega

/-- Every closed node was sound when it was closed. -/
inductive Recorded (t : Terrain) (start : Point) (cameFrom : Layer t.extent (Option Point))
    : List Node → Prop
  | nil : t.Recorded start cameFrom []
  | cons {n : Node} {earlier : List Node} (sound : t.Sound start cameFrom earlier n)
    (before : t.Recorded start cameFrom earlier)
    : t.Recorded start cameFrom (n :: earlier)

/-- Only the record of closed cells matters, by induction over the closed nodes. -/
theorem Recorded.of_get_eq {cameFrom' : Layer t.extent (Option Point)}
    (recorded : t.Recorded start cameFrom earlier)
    (same : ∀ n ∈ earlier, cameFrom'.get n.cell none = cameFrom.get n.cell none)
    : t.Recorded start cameFrom' earlier := by
  induction recorded with
  | nil => exact .nil
  | cons sound _ ih =>
      have before := ih fun m hm => same m (List.mem_cons_of_mem _ hm)
      exact .cons (sound.of_get_eq (same _ List.mem_cons_self)) before

theorem Recorded.head (recorded : t.Recorded start cameFrom (n :: earlier))
    : t.Sound start cameFrom earlier n ∧ t.Recorded start cameFrom earlier := by
  cases recorded with
  | cons sound before => exact ⟨sound, before⟩

/-- A closed node was sound when it was closed, with some of the others before it. -/
theorem Recorded.sound (recorded : t.Recorded start cameFrom earlier) (member : n ∈ earlier)
    : ∃ before, t.Sound start cameFrom before n := by
  induction recorded with
  | nil => cases member
  | cons sound _ ih =>
      rcases List.mem_cons.mp member with rfl | old
      · exact ⟨_, sound⟩
      · exact ih old

-----------------------------------------------------------------------------------------
-- The record of a search
-----------------------------------------------------------------------------------------

/-- What a search has on record after closing these nodes, the latest first. -/
structure Ledger (t : Terrain) (start goal : Point) (done : List Node) (s : Search t.extent)
    : Prop where
  consistent : s.Consistent goal
  waiting : ∀ n, s.Waits n → t.Sound start s.cameFrom done n
  recorded : t.Recorded start s.cameFrom done
  closed : ∀ p, s.closed.get p false = true ↔ p ∈ done.map Node.cell
  distinct : (done.map Node.cell).Nodup
  begun : s.Waits ⟨start, 0, none⟩ ∨ start ∈ done.map Node.cell

variable {done : List Node}

/-- A waiting cell is not closed. -/
theorem Ledger.not_mem_of_waits (ledger : t.Ledger start goal done s) (waits : s.Waits n)
    : n.cell ∉ done.map Node.cell := by
  intro closed
  obtain ⟨y, hy, rfl⟩ := waits
  have apart := ledger.consistent.apart y hy
  rw [(ledger.closed _).mpr closed] at apart
  cases apart

theorem Ledger.inside (ledger : t.Ledger start goal done s)
    : ∀ p ∈ done.map Node.cell, t.extent.contains p = true := by
  intro p hp
  obtain ⟨n, hn, rfl⟩ := List.mem_map.mp hp
  obtain ⟨_, sound⟩ := ledger.recorded.sound hn
  exact sound.inside

/-- No more cells are closed than there are. -/
theorem Ledger.length_le (ledger : t.Ledger start goal done s)
    : done.length ≤ t.extent.area := by
  have count := Extent.length_le_area ledger.distinct ledger.inside
  rwa [List.length_map] at count

/-- While a cell inside is not closed, there is room for one more closed cell. -/
theorem Ledger.length_lt (ledger : t.Ledger start goal done s)
    (inside : t.extent.contains x = true) (unclosed : x ∉ done.map Node.cell)
    : done.length < t.extent.area := by
  have count := Extent.length_le_area (List.nodup_cons.mpr ⟨unclosed, ledger.distinct⟩)
    (List.forall_mem_cons.mpr ⟨inside, ledger.inside⟩)
  rwa [List.length_cons, List.length_map, Nat.succ_le_iff] at count

/-- Considering a node that is sound once it is recorded keeps the record. -/
theorem Ledger.considered (ledger : t.Ledger start goal done s) (consistent : s'.Consistent goal)
    (h : s.Considered goal source n s') (inside : t.extent.contains n.cell = true)
    (sound : s'.cameFrom.get n.cell none = some source.cell → t.Sound start s'.cameFrom done n)
    : t.Ledger start goal done s' := by
  cases h with
  | passed => exact ledger
  | taken unclosed cheaper puts cameFrom =>
      have fresh : n.cell ∉ done.map Node.cell := by
        rw [← ledger.closed, unclosed]
        exact Bool.false_ne_true
      have elsewhere {p : Point} (other : p ≠ n.cell)
          : s'.cameFrom.get p none = s.cameFrom.get p none := by
        rw [cameFrom, Layer.get_set, if_neg fun same => other same.1.symm]
      have soundNew := sound (by rw [cameFrom, Layer.get_set, if_pos ⟨rfl, inside⟩])
      refine ⟨consistent, ?_, ?_, ?_, ledger.distinct, ?_⟩
      · intro m waits
        rcases (puts.waits m).mp waits with rfl | ⟨old, other⟩
        · exact soundNew
        · exact (ledger.waiting m old).of_get_eq (elsewhere other)
      · refine ledger.recorded.of_get_eq fun m hm => elsewhere ?_
        exact fun same => fresh (same ▸ List.mem_map_of_mem hm)
      · rw [puts.closed]
        exact ledger.closed
      · refine ledger.begun.imp_left fun root => (puts.waits _).mpr (Or.inr ⟨root, ?_⟩)
        intro same
        exact absurd soundNew.walk.cost_nonneg (Int.not_le.mpr (cheaper _ root same))

/-- A search considers a stop of a jump without an error if its cell is closed or its estimate fits.
-/
theorem Ledger.consider_of_le (ledger : t.Ledger start goal (source :: rest) s) {stop : Stop}
    (sweep : t.Sweep goal source.cell d stop.cell stop.heading c)
    (affordable : s.closed.get stop.cell false = false
      → (Search.reach source stop).cost + octile stop.cell goal ≤ 2147483647)
    : ∃ s',
        Search.consider goal source s stop = .ok s'
        ∧ t.Ledger start goal (source :: rest) s'
        ∧ s.Keeps s'
        ∧ (stop.cell ∈ (source :: rest).map Node.cell
          ∨ s'.Offers stop.cell (source.cost + octile source.cell stop.cell)) := by
  obtain ⟨sound, _⟩ := ledger.recorded.head
  have inside : t.extent.contains stop.cell = true :=
    contains_of_walkable (sweep.walk sound.walk.walkable).walkable
  obtain ⟨s', considered, consistent, outcome⟩ :=
    ledger.consistent.consider inside sound.walk.cost_nonneg affordable
  refine ⟨s', considered, ?_, outcome.keeps, ?_⟩
  · exact ledger.considered consistent outcome inside (sound.reach sweep)
  · rw [← ledger.closed]
    exact outcome.offers

/-- A search considers a stop of a jump without an error as long as the costs fit. -/
theorem Ledger.consider (ledger : t.Ledger start goal (source :: rest) s)
    (fits : t.extent.CostsFit) (target : t.extent.contains goal = true) {stop : Stop}
    (sweep : t.Sweep goal source.cell d stop.cell stop.heading c)
    : ∃ s',
        Search.consider goal source s stop = .ok s'
        ∧ t.Ledger start goal (source :: rest) s'
        ∧ s.Keeps s'
        ∧ (stop.cell ∈ (source :: rest).map Node.cell
          ∨ s'.Offers stop.cell (source.cost + octile source.cell stop.cell)) := by
  obtain ⟨sound, _⟩ := ledger.recorded.head
  have inside : t.extent.contains stop.cell = true :=
    contains_of_walkable (sweep.walk sound.walk.walkable).walkable
  refine ledger.consider_of_le sweep fun unclosed => ?_
  have fresh : stop.cell ∉ (source :: rest).map Node.cell := by
    rw [← ledger.closed, unclosed]
    exact Bool.false_ne_true
  have room := fits.budget_le (ledger.length_lt inside fresh)
  have before := sound.cost_le
  have run := Extent.octile_le_side sound.inside inside
  have ahead := Extent.octile_le_side inside target
  simp only [Search.reach, List.length_cons, Extent.budget_succ] at room ⊢
  omega

/-- A search considers all stops of some jumps without an error as long as the costs fit, by
induction over the stops.
-/
theorem Ledger.considerAll (ledger : t.Ledger start goal (source :: rest) s)
    (fits : t.extent.CostsFit) (target : t.extent.contains goal = true) {stops : List Stop}
    (sweeps : ∀ stop ∈ stops, ∃ d c, t.Sweep goal source.cell d stop.cell stop.heading c)
    : ∃ s',
        stops.foldlM (Search.consider goal source) s = .ok s'
        ∧ t.Ledger start goal (source :: rest) s'
        ∧ s.Keeps s'
        ∧ ∀ stop ∈ stops,
            stop.cell ∈ (source :: rest).map Node.cell
            ∨ s'.Offers stop.cell (source.cost + octile source.cell stop.cell) := by
  induction stops generalizing s with
  | nil => exact ⟨s, rfl, ledger, .refl s, by simp⟩
  | cons stop stops ih =>
      obtain ⟨d, c, sweep⟩ := sweeps stop List.mem_cons_self
      obtain ⟨s₁, considered, ledger₁, keeps₁, offer⟩ := ledger.consider fits target sweep
      obtain ⟨s₂, others, ledger₂, keeps₂, offers⟩ :=
        ih ledger₁ fun stop hs => sweeps stop (List.mem_cons_of_mem _ hs)
      refine ⟨s₂, ?_, ledger₂, keeps₁.trans keeps₂, ?_⟩
      · rw [List.foldlM_cons, considered]
        exact others
      · intro other hs
        rcases List.mem_cons.mp hs with rfl | later
        · exact offer.imp_right (keeps₂.offers _ _)
        · exact offers other later

/-- A search expands the node closed last without an error as long as the costs fit. -/
theorem Ledger.expand (ledger : t.Ledger start goal (source :: rest) s)
    (fits : t.extent.CostsFit) (target : t.extent.contains goal = true)
    : ∃ s',
        t.expand goal source s = .ok s'
        ∧ t.Ledger start goal (source :: rest) s'
        ∧ s.Keeps s'
        ∧ ∀ stop ∈ (t.jumps goal source.cell (t.directions source.cell source.heading)).stops,
            stop.cell ∈ (source :: rest).map Node.cell
            ∨ s'.Offers stop.cell (source.cost + octile source.cell stop.cell) := by
  have sweeps := t.jumps_sweep goal source.cell (t.directions source.cell source.heading)
  exact ledger.considerAll fits target sweeps.stops

/-- Closing the least node adds it to the record. -/
theorem Ledger.close (ledger : t.Ledger start goal done s) {x : Entry Int Node}
    {heap : FibonacciHeap Int Node} (popped : s.openSet.pop? = some (x, heap))
    : t.Ledger start goal (x.value :: done) (s.close heap x.value) := by
  obtain ⟨consistent, waits⟩ := ledger.consistent.close popped
  have member := (ledger.consistent.least popped).waits
  have sound := ledger.waiting x.value member
  refine ⟨consistent, ?_, .cons sound ledger.recorded, ?_, ?_, ?_⟩
  · exact fun n hn => (ledger.waiting n ((waits n).mp hn).1).cons x.value
  · intro p
    rw [Search.close, Layer.get_set, List.map_cons, List.mem_cons, ← ledger.closed]
    split
    · rename_i same
      simp [same.1]
    · rename_i other
      have differ : p ≠ x.value.cell := fun same => other ⟨same.symm, same ▸ sound.inside⟩
      simp [differ]
  · exact List.nodup_cons.mpr ⟨ledger.not_mem_of_waits member, ledger.distinct⟩
  · rcases ledger.begun with root | closed
    · by_cases same : start = x.value.cell
      · exact Or.inr (by simp [same])
      · exact Or.inl ((waits _).mpr ⟨root, same⟩)
    · exact Or.inr (List.mem_cons_of_mem _ closed)

/-- The record of a search at its beginning is empty, provided that the estimate of the start fits. -/
theorem exists_ledger_of_le (free : t.walkable start = true)
    (affordable : octile start goal ≤ 2147483647)
    : ∃ s, Search.initial t.extent start goal = .ok s ∧ t.Ledger start goal [] s := by
  obtain ⟨s, begun, consistent, waits, closed, cameFrom⟩ :=
    Search.exists_initial (contains_of_walkable free) affordable
  refine ⟨s, begun, consistent, ?_, .nil, ?_, .nil, Or.inl ((waits _).mpr rfl)⟩
  · intro n hn
    obtain rfl := (waits n).mp hn
    refine ⟨.here free, by simp [Arrives], .root rfl ?_, by simp⟩
    simp [cameFrom, Layer.get_fill]
  · simp [closed, Layer.get_fill]

/-- As long as the costs fit, the estimate of the start does. -/
theorem exists_ledger (fits : t.extent.CostsFit) (free : t.walkable start = true)
    (target : t.extent.contains goal = true)
    : ∃ s, Search.initial t.extent start goal = .ok s ∧ t.Ledger start goal [] s := by
  have run := Extent.octile_le_side (contains_of_walkable free) target
  have room := fits.budget_le (Nat.succ_le_of_lt t.extent.area_pos)
  rw [Extent.budget_succ, Extent.budget_zero] at room
  exact exists_ledger_of_le free (by omega)

end Terrain

end Wayfinding
