import Wayfinding.Proofs.Heap.Degrees
import Wayfinding.Proofs.Heap.Refinement

/-! What holds of the links in a heap after every history of requests, in terms of the slots alone:
they describe trees in heap order whose siblings form rings, and no slot has more children than the
size of the heap allows.
-/

namespace Wayfinding

variable {κ α : Type}

/-- The slot `j` is `i` itself or lies below it. -/
inductive Slots.Under (s : Slots κ α) (i : Nat) : Nat → Prop
  | self : s.Under i i
  | child {j k : Nat} (parent : s.parent? k = some (some j)) (under : s.Under i j) : s.Under i k

namespace Arena

/-- The slot holds an element. -/
def Live (a : Arena κ α) (i : Nat) : Prop :=
  ∃ t, a.slots.slot? i = some t ∧ t.value ≠ none

/-- The ring of the children of a slot, or that of the roots, as it is read. -/
def ringBelow (a : Arena κ α) : Option Nat → Option (List Nat)
  | none => a.slots.ring a.least
  | some i => (a.slots.slot? i).bind fun t => a.slots.ring t.child

/-- The links of a heap are sound. The roots and the children of each element form a ring that is
read to its end and whose slots name the right parent. Every element is in exactly one ring and its
parents end at a root. The degree of an element is the number of its children, none of which has a
smaller key. The least root has the least key of all, and a slot is either live or free.
-/
structure WellLinked [LE κ] (a : Arena κ α) : Prop where
  rings : ∀ p : Option Nat, (∀ i ∈ p, a.Live i)
    → ∃ l, a.ringBelow p = some l ∧ a.slots.Ring p l ∧ ∀ i ∈ l, a.Live i
  member : ∀ i, a.Live i
    → ∃! p : Option Nat, (∀ j ∈ p, a.Live j) ∧ ∃ l, a.ringBelow p = some l ∧ i ∈ l
  rooted : ∀ i, a.Live i → ∃ r, a.slots.parent? r = some none ∧ a.slots.Under r i
  degree : ∀ i t l, a.Live i → a.slots.slot? i = some t → a.ringBelow (some i) = some l
    → t.degree = l.length
  ordered : ∀ i j t u, a.Live i → a.slots.slot? i = some t → t.parent = some j
    → a.slots.slot? j = some u → u.key ≤ t.key
  least_none : a.least = none ↔ a.size = 0
  least_root : ∀ m, a.least = some m → a.Live m ∧ a.slots.parent? m = some none
  least_key : ∀ m t i u, a.least = some m → a.slots.slot? m = some t → a.Live i
    → a.slots.slot? i = some u → t.key ≤ u.key
  free_nodup : a.free.Nodup
  mem_free : ∀ i, i ∈ a.free ↔ i < a.slots.size ∧ ¬ a.Live i
  slots_size : a.slots.size = a.size + a.free.length
  slots_size_le : a.slots.size ≤ a.capacity

/-- Every element has at least as many elements below it, itself among them, as a Fibonacci number
given by its degree, so no degree exceeds what the size of the heap allows.
-/
structure FibonacciBounded (a : Arena κ α) : Prop where
  fib_le_below : ∀ i t, a.Live i → a.slots.slot? i = some t
    → ∃ below : List Nat,
        below.Nodup
        ∧ (∀ j ∈ below, a.Live j ∧ a.slots.Under i j)
        ∧ Nat.fib (t.degree + 2) ≤ below.length
  fib_le_size : ∀ i t, a.Live i → a.slots.slot? i = some t → Nat.fib (t.degree + 2) ≤ a.size

end Arena

-----------------------------------------------------------------------------------------
-- The vertices of ordered trees
-----------------------------------------------------------------------------------------

namespace Tree

mutual

/-- A vertex is the root of its tree or a child, by induction over the tree. -/
theorem handle_or_child {t : Tree κ α} {i : Nat} (hi : i ∈ t.vertices.map Vertex.handle)
    : i = t.handle ∨ ∃ u ∈ t.vertices, i ∈ u.children := by
  cases t with
  | node e m cs =>
      rw [vertices, List.map_cons] at hi
      rcases List.mem_cons.mp hi with rfl | below
      · exact Or.inl rfl
      · refine Or.inr ?_
        rcases root_or_child below with root | ⟨u, hu, child⟩
        · exact ⟨_, List.mem_cons_self, root⟩
        · exact ⟨u, List.mem_cons_of_mem _ hu, child⟩
termination_by sizeOf t

theorem root_or_child {ts : List (Tree κ α)} {i : Nat}
    (hi : i ∈ (forestVertices ts).map Vertex.handle)
    : i ∈ ts.map handle ∨ ∃ u ∈ forestVertices ts, i ∈ u.children := by
  cases ts with
  | nil => simp at hi
  | cons t ts =>
      rw [forestVertices_cons, List.map_append] at hi
      rcases List.mem_append.mp hi with here | later
      · rcases handle_or_child here with rfl | ⟨u, hu, child⟩
        · exact Or.inl List.mem_cons_self
        · exact Or.inr ⟨u, List.mem_append_left _ hu, child⟩
      · rcases root_or_child later with root | ⟨u, hu, child⟩
        · exact Or.inl (List.mem_cons_of_mem _ root)
        · exact Or.inr ⟨u, List.mem_append_right _ hu, child⟩
termination_by sizeOf ts

end

mutual

/-- No child has a smaller key than its parent, by induction over the ordered tree. -/
theorem Ordered.exists_child [LinearOrder κ] {t : Tree κ α} (ordered : t.Ordered) {u : Vertex κ α}
    (hu : u ∈ t.vertices) {i : Nat} (child : i ∈ u.children)
    : ∃ v ∈ t.vertices, v.handle = i ∧ u.key ≤ v.key := by
  cases t with
  | node e m cs =>
      have below : ∀ c ∈ cs, c.Ordered := ordered.children
      rw [vertices] at hu ⊢
      rcases List.mem_cons.mp hu with rfl | later
      · obtain ⟨c, hc, rfl⟩ := List.mem_map.mp child
        refine ⟨c.vertex, List.mem_cons_of_mem _ ?_, rfl, ordered.key_le_child c hc⟩
        exact mem_forestVertices.mpr ⟨c, hc, c.vertex_mem_vertices⟩
      · obtain ⟨v, hv, found⟩ := exists_child_forest below later child
        exact ⟨v, List.mem_cons_of_mem _ hv, found⟩
termination_by sizeOf t

theorem exists_child_forest [LinearOrder κ] {ts : List (Tree κ α)} (ordered : ∀ t ∈ ts, t.Ordered)
    {u : Vertex κ α} (hu : u ∈ forestVertices ts) {i : Nat} (child : i ∈ u.children)
    : ∃ v ∈ forestVertices ts, v.handle = i ∧ u.key ≤ v.key := by
  cases ts with
  | nil => simp at hu
  | cons t ts =>
      rcases List.mem_append.mp hu with here | later
      · obtain ⟨v, hv, found⟩ := (ordered t (by simp)).exists_child here child
        exact ⟨v, List.mem_append_left _ hv, found⟩
      · obtain ⟨v, hv, found⟩ :=
          exists_child_forest (fun s hs => ordered s (List.mem_cons_of_mem t hs)) later child
        exact ⟨v, List.mem_append_right _ hv, found⟩
termination_by sizeOf ts

end

/-- A tree within others has its vertices among theirs. -/
theorem Within.vertices_subset {ts : List (Tree κ α)} {t : Tree κ α} (within : Within ts t)
    : t.vertices ⊆ forestVertices ts := by
  have single {us : List (Tree κ α)} {u : Tree κ α} (member : u ∈ us)
      : u.vertices ⊆ forestVertices us :=
    fun v hv => mem_forestVertices.mpr ⟨u, member, hv⟩
  induction within with
  | root member => exact single member
  | @child t c _ member ih =>
      refine fun v hv => ih ?_
      rw [vertices_eq]
      exact List.mem_cons_of_mem _ (single member hv)

end Tree

namespace Slots

open Wayfinding.Tree

variable {s : Slots κ α} {roots : List Nat} {vs : List (Vertex κ α)} {i : Nat}

theorem Under.trans {j k : Nat} (first : s.Under i j) (second : s.Under j k) : s.Under i k := by
  induction second with
  | self => exact first
  | child parent _ ih => exact ih.child parent

mutual

/-- All vertices of a tree lie under its root, by induction over the tree. -/
theorem Holds.under {t : Tree κ α} (holds : s.Holds roots vs) (part : t.vertices ⊆ vs)
    (hi : i ∈ t.vertices.map Vertex.handle)
    : s.Under t.handle i := by
  cases t with
  | node e m cs =>
      rw [vertices, List.map_cons] at hi
      rcases List.mem_cons.mp hi with rfl | below
      · exact .self
      · have root := part (node e m cs).vertex_mem_vertices
        refine Holds.under_forest holds (fun v hv => part (List.mem_cons_of_mem _ hv)) ?_ below
        exact fun c hc => (holds.rings _ root).parents _ (List.mem_map_of_mem hc)
termination_by sizeOf t

theorem Holds.under_forest {ts : List (Tree κ α)} {j : Nat} (holds : s.Holds roots vs)
    (part : forestVertices ts ⊆ vs) (parents : ∀ t ∈ ts, s.parent? t.handle = some (some j))
    (hi : i ∈ (forestVertices ts).map Vertex.handle)
    : s.Under j i := by
  cases ts with
  | nil => simp at hi
  | cons t ts =>
      rw [forestVertices_cons, List.map_append] at hi
      rcases List.mem_append.mp hi with here | later
      · have below := Holds.under holds (fun v hv => part (List.mem_append_left _ hv)) here
        exact (Under.self.child (parents t List.mem_cons_self)).trans below
      · exact Holds.under_forest holds (fun v hv => part (List.mem_append_right _ hv))
          (fun u hu => parents u (List.mem_cons_of_mem t hu)) later
termination_by sizeOf ts

end

end Slots

namespace Arena

open Wayfinding.Tree

variable {a : Arena κ α} {h : FibonacciHeap κ α}

theorem Models.exists_slot? (models : a.Models h) {v : Vertex κ α} (hv : v ∈ forestVertices h.roots)
    : ∃ t, a.slots.slot? v.handle = some t ∧ t.toContent = v.content := by
  obtain ⟨dead, stores, _⟩ := models.stores
  exact Slots.Holds.exists_slot? stores (List.mem_append_left dead hv)

theorem Models.ring_roots (models : a.Models h) : a.slots.Ring none (h.roots.map handle) := by
  obtain ⟨_, stores, _⟩ := models.stores
  exact stores.roots

theorem Models.ring_children (models : a.Models h) {v : Vertex κ α}
    (hv : v ∈ forestVertices h.roots)
    : a.slots.Ring (some v.handle) v.children := by
  obtain ⟨dead, stores, _⟩ := models.stores
  exact stores.rings v (List.mem_append_left dead hv)

theorem Models.ringBelow_none (models : a.Models h)
    : a.ringBelow none = some (h.roots.map handle) := by
  rw [ringBelow, models.least, ← List.head?_map]
  exact models.ring_roots.read

theorem Models.ringBelow_some (models : a.Models h) {v : Vertex κ α}
    (hv : v ∈ forestVertices h.roots)
    : a.ringBelow (some v.handle) = some v.children := by
  obtain ⟨t, found, same⟩ := models.exists_slot? hv
  have child : t.child = v.children.head? := congrArg Content.child same
  rw [ringBelow, found, Option.bind_some, child]
  exact (models.ring_children hv).read

/-- The least root is the first one of the heap. -/
theorem Models.exists_least (models : a.Models h) {m : Nat} (first : a.least = some m)
    : ∃ r, h.roots.head? = some r ∧ r ∈ h.roots ∧ r.handle = m := by
  rw [models.least] at first
  obtain ⟨r, head, same⟩ := Option.map_eq_some_iff.mp first
  exact ⟨r, head, List.mem_of_mem_head? head, same⟩

/-- The live slots are those that show an element. -/
theorem live_iff_entry?_ne_none {i : Nat} : a.Live i ↔ a.entry? i ≠ none := by
  rw [Live, Arena.entry?]
  cases a.slots.slot? i with
  | none => simp
  | some t => simpa using Option.ne_none_iff_exists'

variable [LinearOrder κ]

/-- The live slots are those of the vertices. -/
theorem Models.live_iff (models : a.Models h) (valid : h.Valid) {i : Nat}
    : a.Live i ↔ i ∈ (forestVertices h.roots).map Vertex.handle := by
  rw [live_iff_entry?_ne_none, models.entry? valid, Ne, FibonacciHeap.entry?_eq_none, not_not,
    map_handle_forestVertices]
  rfl

theorem Models.exists_vertex (models : a.Models h) (valid : h.Valid) {i : Nat} (live : a.Live i)
    : ∃ v ∈ forestVertices h.roots, v.handle = i :=
  List.mem_map.mp ((models.live_iff valid).mp live)

/-- A slot with an element shows what the heap has under its number. -/
theorem Models.exists_entry (models : a.Models h) (valid : h.Valid) {i : Nat} {t : Slot κ α}
    (live : a.Live i) (found : a.slots.slot? i = some t)
    : ∃ e ∈ h.entries, e.handle = i ∧ e.key = t.key := by
  obtain ⟨t', found', value⟩ := live
  rw [found] at found'
  cases found'
  obtain ⟨value, hv⟩ := Option.ne_none_iff_exists'.mp value
  have shown : a.entry? i = some ⟨i, t.key, value⟩ := by
    simp [Arena.entry?, found, hv]
  rw [models.entry? valid] at shown
  obtain ⟨member, _⟩ := valid.entry?_eq_some.mp shown
  exact ⟨_, member, rfl, rfl⟩

-----------------------------------------------------------------------------------------
-- Sound links
-----------------------------------------------------------------------------------------

/-- The rings are read to their ends. -/
theorem Models.exists_ring (models : a.Models h) (valid : h.Valid) (p : Option Nat)
    (owner : ∀ i ∈ p, a.Live i)
    : ∃ l, a.ringBelow p = some l ∧ a.slots.Ring p l ∧ ∀ i ∈ l, a.Live i := by
  cases p with
  | none =>
      exact ⟨_, models.ringBelow_none, models.ring_roots, fun i hi =>
        (models.live_iff valid).mpr (map_handle_subset _ hi)⟩
  | some i =>
      obtain ⟨v, hv, rfl⟩ := models.exists_vertex valid (owner i rfl)
      exact ⟨_, models.ringBelow_some hv, models.ring_children hv, fun i hi =>
        (models.live_iff valid).mpr (children_subset_forestVertices hv hi)⟩

/-- An element is a root or a child, and the parent in its slot tells in which ring it is. -/
theorem Models.existsUnique_ring (models : a.Models h) (valid : h.Valid) {i : Nat}
    (live : a.Live i)
    : ∃! p : Option Nat, (∀ j ∈ p, a.Live j) ∧ ∃ l, a.ringBelow p = some l ∧ i ∈ l := by
  refine existsUnique_of_exists_of_unique ?_ fun p q hp hq => ?_
  · rcases root_or_child ((models.live_iff valid).mp live) with root | ⟨u, hu, child⟩
    · exact ⟨none, by simp, _, models.ringBelow_none, root⟩
    · refine ⟨some u.handle, fun j hj => ?_, _, models.ringBelow_some hu, child⟩
      cases hj
      exact (models.live_iff valid).mpr (List.mem_map_of_mem hu)
  -- A ring names its owner in each of its slots, so two rings of one slot have the same owner.
  · obtain ⟨ownerP, l, readP, inP⟩ := hp
    obtain ⟨ownerQ, r, readQ, inQ⟩ := hq
    obtain ⟨_, readL, ringL, _⟩ := models.exists_ring valid p ownerP
    obtain ⟨_, readR, ringR, _⟩ := models.exists_ring valid q ownerQ
    cases readP.symm.trans readL
    cases readQ.symm.trans readR
    exact Option.some.inj ((ringL.parents i inP).symm.trans (ringR.parents i inQ))

/-- The parents of an element end at the root of its tree. -/
theorem Models.exists_root (models : a.Models h) (valid : h.Valid) {i : Nat} (live : a.Live i)
    : ∃ r, a.slots.parent? r = some none ∧ a.slots.Under r i := by
  obtain ⟨dead, stores, _⟩ := models.stores
  obtain ⟨v, hv, rfl⟩ := models.exists_vertex valid live
  obtain ⟨t, ht, inside⟩ := mem_forestVertices.mp hv
  refine ⟨t.handle, models.ring_roots.parents _ (List.mem_map_of_mem ht),
    Slots.Holds.under stores (fun w hw => ?_) (List.mem_map_of_mem inside)⟩
  exact List.mem_append_left dead (mem_forestVertices.mpr ⟨t, ht, hw⟩)

/-- The degree of an element is the length of the ring of its children. -/
theorem Models.degree_eq (models : a.Models h) (valid : h.Valid) {i : Nat} {t : Slot κ α}
    {l : List Nat} (live : a.Live i) (found : a.slots.slot? i = some t)
    (read : a.ringBelow (some i) = some l)
    : t.degree = l.length := by
  obtain ⟨v, hv, rfl⟩ := models.exists_vertex valid live
  obtain ⟨t', found', same⟩ := models.exists_slot? hv
  cases found.symm.trans found'
  cases read.symm.trans (models.ringBelow_some hv)
  exact congrArg Content.degree same

/-- The parent in a slot is the vertex among whose children the slot is, with no greater key. -/
theorem Models.key_le (models : a.Models h) (valid : h.Valid) {i j : Nat} {t u : Slot κ α}
    (live : a.Live i) (foundI : a.slots.slot? i = some t) (parent : t.parent = some j)
    (foundJ : a.slots.slot? j = some u)
    : u.key ≤ t.key := by
  have parents : a.slots.parent? i = some (some j) := by
    simp [Slots.parent?, Slots.links?, foundI, parent]
  rcases root_or_child ((models.live_iff valid).mp live) with root | ⟨w, hw, child⟩
  · rw [models.ring_roots.parents i root] at parents
    cases parents
  · rw [(models.ring_children hw).parents i child] at parents
    cases parents
    obtain ⟨v, hv, rfl, le⟩ := exists_child_forest valid.ordered hw child
    obtain ⟨t', foundV, sameV⟩ := models.exists_slot? hv
    obtain ⟨u', foundW, sameW⟩ := models.exists_slot? hw
    cases foundI.symm.trans foundV
    cases foundJ.symm.trans foundW
    rw [show t.key = v.key from congrArg Content.key sameV,
      show u.key = w.key from congrArg Content.key sameW]
    exact le

theorem Models.least_eq_none (models : a.Models h) (valid : h.Valid)
    : a.least = none ↔ a.size = 0 := by
  rw [models.least, Option.map_eq_none_iff, List.head?_eq_none_iff, models.size, valid.size_eq,
    List.length_eq_zero_iff, FibonacciHeap.entries]
  cases h.roots with
  | nil => simp
  | cons t ts => simp [entries_eq t]

theorem Models.least_root (models : a.Models h) (valid : h.Valid) {m : Nat}
    (first : a.least = some m)
    : a.Live m ∧ a.slots.parent? m = some none := by
  obtain ⟨r, _, root, rfl⟩ := models.exists_least first
  exact ⟨(models.live_iff valid).mpr (map_handle_subset _ (List.mem_map_of_mem root)),
    models.ring_roots.parents _ (List.mem_map_of_mem root)⟩

theorem Models.least_key_le (models : a.Models h) (valid : h.Valid) {m i : Nat} {t u : Slot κ α}
    (first : a.least = some m) (foundM : a.slots.slot? m = some t) (live : a.Live i)
    (foundI : a.slots.slot? i = some u)
    : t.key ≤ u.key := by
  obtain ⟨liveM, _⟩ := models.least_root valid first
  obtain ⟨r, head, _, rfl⟩ := models.exists_least first
  have shown : h.peek? = some r.entry := by rw [FibonacciHeap.peek?, head]; rfl
  obtain ⟨root, least⟩ := valid.peek?_least shown
  obtain ⟨e, he, named, key⟩ := models.exists_entry valid liveM foundM
  obtain ⟨f, hf, _, keyI⟩ := models.exists_entry valid live foundI
  rw [← key, ← keyI, valid.entry_eq he root named]
  exact least f hf

/-- A slot is free if and only if it holds no element. -/
theorem Models.mem_free (models : a.Models h) (valid : h.Valid) {i : Nat}
    : i ∈ a.free ↔ i < a.slots.size ∧ ¬ a.Live i := by
  have unique := valid.handles.nodup_iff.mpr List.nodup_range
  have all := valid.handles.mem_iff (a := i)
  rw [List.mem_append, List.mem_range] at all
  rw [models.free, models.issued, models.live_iff valid, map_handle_forestVertices]
  constructor
  · exact fun gone => ⟨all.mp (Or.inr gone), fun used =>
      (List.nodup_append.mp unique).2.2 _ used _ gone rfl⟩
  · exact fun other => (all.mpr other.1).resolve_left other.2

theorem Models.slots_size (models : a.Models h) (valid : h.Valid)
    : a.slots.size = a.size + a.free.length := by
  have total := valid.handles.length_eq
  rw [List.length_append, List.length_map, List.length_range] at total
  rw [models.issued, models.free, models.size, valid.size_eq, total]

/-- A heap in slots whose trees are valid is linked soundly. -/
theorem Models.wellLinked (models : a.Models h) (valid : h.Valid) : a.WellLinked where
  rings p owner := models.exists_ring valid p owner
  member i live := models.existsUnique_ring valid live
  rooted i live := models.exists_root valid live
  degree i t l live found read := models.degree_eq valid live found read
  ordered i j t u live foundI parent foundJ := models.key_le valid live foundI parent foundJ
  least_none := models.least_eq_none valid
  least_root m first := models.least_root valid first
  least_key m t i u first foundM live foundI := models.least_key_le valid first foundM live foundI
  free_nodup := by
    have unique := valid.handles.nodup_iff.mpr List.nodup_range
    rw [models.free]
    exact (List.nodup_append.mp unique).2.1
  mem_free i := models.mem_free valid
  slots_size := models.slots_size valid
  slots_size_le := by
    rw [models.issued, models.capacity]
    exact valid.issued_le

-----------------------------------------------------------------------------------------
-- Bounded degrees
-----------------------------------------------------------------------------------------

/-- A heap in slots whose trees grow with their degrees has bounded degrees. -/
theorem Models.fibonacciBounded (models : a.Models h) (valid : h.Valid)
    (bounded : h.FibonacciBounded)
    : a.FibonacciBounded := by
  obtain ⟨dead, stores, _⟩ := models.stores
  have exists_tree {i : Nat} {t : Slot κ α} (hi : a.Live i) (found : a.slots.slot? i = some t)
      : ∃ u, Within h.roots u ∧ u.handle = i ∧ u.degree = t.degree := by
    obtain ⟨e, he, named, _⟩ := models.exists_entry valid hi found
    obtain ⟨u, within, rfl⟩ := bounded.rooted e he
    obtain ⟨t', found', same⟩ :=
      models.exists_slot? (within.vertices_subset u.vertex_mem_vertices)
    rw [handle_vertex, handle, named, found] at found'
    cases found'
    refine ⟨u, within, named, ?_⟩
    rw [show t.degree = u.vertex.children.length from congrArg Content.degree same,
      vertex, List.length_map, degree]
  constructor
  · intro i t hi found
    obtain ⟨u, within, rfl, same⟩ := exists_tree hi found
    have part : u.vertices ⊆ forestVertices h.roots := within.vertices_subset
    refine ⟨u.vertices.map Vertex.handle, ?_, fun j hj => ⟨?_, ?_⟩, ?_⟩
    · rw [map_handle_vertices]
      have unique := valid.handles.nodup_iff.mpr List.nodup_range
      exact (List.nodup_append.mp unique).1.sublist ((bounded.sublist u within).map _)
    · exact (models.live_iff valid).mpr (List.map_subset _ part hj)
    · exact Slots.Holds.under stores (fun v hv => List.mem_append_left dead (part hv)) hj
    · rw [map_handle_vertices, List.length_map, ← same]
      exact bounded.fib_le_length u within
  · intro i t hi found
    obtain ⟨u, within, _, same⟩ := exists_tree hi found
    rw [← same, models.size]
    exact bounded.fib_le_size u within

-----------------------------------------------------------------------------------------
-- All histories
-----------------------------------------------------------------------------------------

theorem Reached.dense {capacity : Nat} {requests : List (HeapRequest κ α)}
    {replies : List (HeapReply κ α)} (reached : Reached capacity requests replies a h)
    : h.Dense := by
  rw [reached.trees]
  exact FibonacciHeap.Dense.performAll (fun t ht => by simp at ht) requests

/-- Every history of requests is answered, so no operation looks for a slot that is not there or
follows links without end, and it leaves sound links.
-/
theorem performAll_wellLinked {capacity : Nat} (positive : 0 < capacity)
    (requests : List (HeapRequest κ α))
    : ∃ start : Arena κ α,
        Arena.empty κ α capacity = .ok start
        ∧ ∃ replies last,
            start.performAll requests = some (replies, last)
            ∧ last.capacity = capacity
            ∧ last.WellLinked := by
  obtain ⟨start, created⟩ := exists_empty positive
  obtain ⟨replies, last, h, done, reached⟩ := exists_reached created requests
  exact ⟨start, created, replies, last, done, reached.models.capacity.trans reached.capacity,
    reached.models.wellLinked reached.valid⟩

/-- An element that loses two of its children, whose second loss cuts it off as well. -/
theorem performAll_wellLinked_cascade
    : 0 < 9
      ∧ ∃ start : Arena Int String,
          Arena.empty Int String 9 = .ok start
          ∧ ∃ replies last,
              start.performAll
                  [.insert 0 "a", .insert 1 "b", .insert 2 "c", .insert 3 "d", .insert 4 "e",
                    .insert 5 "f", .insert 6 "g", .insert 7 "h", .insert 8 "i", .pop,
                    .decreaseKey 6 0, .decreaseKey 7 0, .pop, .insert 9 "j"]
                = some (replies, last)
              ∧ last.capacity = 9
              ∧ last.WellLinked :=
  ⟨by decide, performAll_wellLinked (by decide) _⟩

/-- No history of requests leaves an element with more children than elements below it allow. -/
theorem performAll_fibonacciBounded {capacity : Nat} (positive : 0 < capacity)
    (requests : List (HeapRequest κ α))
    : ∃ start : Arena κ α,
        Arena.empty κ α capacity = .ok start
        ∧ ∃ replies last,
            start.performAll requests = some (replies, last) ∧ last.FibonacciBounded := by
  obtain ⟨start, created⟩ := exists_empty positive
  obtain ⟨replies, last, h, done, reached⟩ := exists_reached created requests
  exact ⟨start, created, replies, last, done,
    reached.models.fibonacciBounded reached.valid (reached.dense.fibonacciBounded reached.valid)⟩

/-- Three elements of which the first was taken out, so that one of the others is below the other.
-/
theorem performAll_fibonacciBounded_three
    : 0 < 3
      ∧ ∃ start : Arena Int String,
          Arena.empty Int String 3 = .ok start
          ∧ ∃ replies last,
              start.performAll [.insert 5 "a", .insert 7 "b", .insert 6 "c", .pop]
                = some (replies, last)
              ∧ last.FibonacciBounded :=
  ⟨by decide, performAll_fibonacciBounded (by decide) _⟩

end Arena

end Wayfinding
