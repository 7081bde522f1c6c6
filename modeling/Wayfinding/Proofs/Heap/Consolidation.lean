import Wayfinding.Proofs.Heap.WellLinked

/-! What is left when the least element of a heap comes out. All other elements stay in their slots,
and what was above one of them still is: merging puts trees below others, but it takes nothing out
of a tree. The roots that are left have different degrees.
-/

namespace Wayfinding

variable {κ α : Type}

namespace Arena

/-- The slot holds a root, with this content and these links. -/
def IsRoot (a : Arena κ α) (i : Nat) (t : Slot κ α) : Prop :=
  a.slots.slot? i = some t ∧ t.value ≠ none ∧ t.parent = none

/-- The heap `after` is what is left of `a` when the element `e` came out. That one was in the slot
of the least root. All other elements are still there, in the same slots, and below whatever they
were below before. The ring of the roots is read to its end and has each of them once, no two of
them have the same degree, and the least one has the least key.
-/
structure Consolidated [LE κ] (a : Arena κ α) (e : Entry κ α) (after : Arena κ α) : Prop where
  taken : a.least = some e.handle ∧ a.entry? e.handle = some e
  live : ∀ i, after.Live i ↔ a.Live i ∧ i ≠ e.handle
  entry : ∀ i, i ≠ e.handle → after.entry? i = a.entry? i
  under : ∀ i j, after.Live i → after.Live j → a.slots.Under i j → after.slots.Under i j
  ring : ∃ l, after.ringBelow none = some l ∧ l.Nodup ∧ ∀ i, i ∈ l ↔ ∃ t, after.IsRoot i t
  degree : ∀ i j t u, after.IsRoot i t → after.IsRoot j u → t.degree = u.degree → i = j
  least : ∃ m t,
    after.least = some m ∧ after.IsRoot m t ∧ ∀ i u, after.IsRoot i u → t.key ≤ u.key

end Arena

-----------------------------------------------------------------------------------------
-- Trees that only grow
-----------------------------------------------------------------------------------------

namespace Tree

/-- The tree `u` has the element of `t` at its root, and the children of `t` among its own. -/
structure Grown (t u : Tree κ α) : Prop where
  entry : u.entry = t.entry
  children : t.children ⊆ u.children

theorem Grown.refl (t : Tree κ α) : Grown t t :=
  ⟨rfl, List.Subset.refl _⟩

theorem Grown.trans {t u v : Tree κ α} (first : Grown t u) (second : Grown u v) : Grown t v :=
  ⟨second.entry.trans first.entry, List.Subset.trans first.children second.children⟩

theorem grown_adopt (t c : Tree κ α) : Grown t (t.adopt c) :=
  ⟨entry_adopt t c, by simp [children_adopt]⟩

theorem grown_setMarked (m : Bool) (t : Tree κ α) : Grown t (t.setMarked m) :=
  ⟨entry_setMarked m t, by simp⟩

variable {ts us others : List (Tree κ α)} {s t c z : Tree κ α}

theorem Within.mono (within : Within ts t) (part : ts ⊆ us) : Within us t := by
  induction within with
  | root member => exact .root (part member)
  | child _ member ih => exact ih.child member

/-- Without the first tree, whose children take its place, only that tree itself is lost. -/
theorem Within.eq_or (within : Within (z :: others) t) : t = z ∨ Within (others ++ z.children) t
    := by
  induction within with
  | root member =>
      rcases List.mem_cons.mp member with same | later
      · exact .inl same
      · exact .inr (.root (List.mem_append_left _ later))
  | child _ member ih =>
      rcases ih with rfl | within
      · exact .inr (.root (List.mem_append_right _ member))
      · exact .inr (within.child member)

/-- One merge lets the trees within others only grow, by induction from the root down. -/
theorem exists_grown_adopt (within : Within (t :: c :: others) s)
    : ∃ u, Within (t.adopt c :: others) u ∧ Grown s u := by
  have root : Within (t.adopt c :: others) (t.adopt c) := .root List.mem_cons_self
  induction within with
  | @root s member =>
      rcases List.mem_cons.mp member with rfl | member
      · exact ⟨_, root, grown_adopt s c⟩
      · rcases List.mem_cons.mp member with rfl | member
        · exact ⟨_, root.child (by simp [children_adopt]), grown_setMarked false s⟩
        · exact ⟨s, .root (List.mem_cons_of_mem _ member), .refl s⟩
  | @child _ s _ member ih =>
      obtain ⟨u, within, grown⟩ := ih
      exact ⟨s, within.child (grown.children member), .refl s⟩

end Tree

namespace FibonacciHeap

open Wayfinding.Tree

variable [LinearOrder κ] {ts us : List (Tree κ α)} {h after : FibonacciHeap κ α} {e : Entry κ α}
  {s : Tree κ α}

/-- Merges let the trees within others only grow, by induction over the merges. -/
theorem Merges.exists_grown (merges : Merges ts us) (within : Within ts s)
    : ∃ u, Within us u ∧ Grown s u := by
  induction merges generalizing s with
  | done same => exact ⟨s, within.mono same.subset, .refl s⟩
  | adopt found _ _ _ ih =>
      obtain ⟨u, withinU, grown⟩ := exists_grown_adopt (within.mono found.subset)
      obtain ⟨v, withinV, more⟩ := ih withinU
      exact ⟨v, withinV, grown.trans more⟩

/-- What is left when an element came out was merged until the degrees differ. -/
theorem exists_of_pop? (popped : h.pop? = some (e, after))
    : ∃ z rest,
        h.roots = z :: rest
        ∧ z.entry = e
        ∧ Merges (rest ++ z.children) after.roots
        ∧ (after.roots.map Tree.degree).Nodup := by
  rw [FibonacciHeap.pop?] at popped
  split at popped
  · cases popped
  · rename_i z rest hr
    cases popped
    have turned := startAtLeast_perm (consolidate (rest ++ z.children))
    refine ⟨z, rest, hr, rfl, (consolidate_merges _).trans (.done turned.symm), ?_⟩
    exact (turned.map Tree.degree).nodup_iff.mpr (consolidate_nodup _)

/-- All trees but that of the element that came out have grown, if they changed at all. -/
theorem exists_grown_of_pop? (popped : h.pop? = some (e, after)) (within : Within h.roots s)
    (other : s.entry ≠ e)
    : ∃ u, Within after.roots u ∧ Grown s u := by
  obtain ⟨z, rest, hr, rfl, merges, _⟩ := exists_of_pop? popped
  rw [hr] at within
  rcases within.eq_or with rfl | within
  · exact absurd rfl other
  · exact merges.exists_grown within

end FibonacciHeap

-----------------------------------------------------------------------------------------
-- Parents and ancestors in slots
-----------------------------------------------------------------------------------------

/-- Nothing is above a root but itself. -/
theorem Slots.Under.eq_of_root {s : Slots κ α} {i j : Nat} (under : s.Under i j)
    (root : s.parent? j = some none)
    : i = j := by
  cases under with
  | self => rfl
  | child parent _ =>
      rw [root] at parent
      cases parent

namespace Arena

open Wayfinding.Tree

variable [LinearOrder κ] {a : Arena κ α} {h : FibonacciHeap κ α} {i j : Nat}

/-- Every vertex is the root of a tree within the heap. -/
theorem exists_within_of_vertex (valid : h.Valid) {v : Vertex κ α} (hv : v ∈ forestVertices h.roots)
    : ∃ t, Within h.roots t ∧ t.vertex = v := by
  have handles := map_handle_forestVertices h.roots
  have named : v.handle ∈ (forestEntries h.roots).map Entry.handle := by
    rw [← handles]
    exact List.mem_map_of_mem hv
  obtain ⟨e, he, same⟩ := List.mem_map.mp named
  obtain ⟨t, within, rfl⟩ := exists_within_forest (fun _ ht => .root ht) he
  have distinct : ((forestVertices h.roots).map Vertex.handle).Nodup := by
    rw [handles]
    exact valid.distinct
  have vertex := within.vertices_subset t.vertex_mem_vertices
  exact ⟨t, within, List.inj_on_of_nodup_map distinct vertex hv same⟩

theorem Models.live_of_within (models : a.Models h) (valid : h.Valid) {t : Tree κ α}
    (within : Within h.roots t)
    : a.Live t.handle :=
  (models.live_iff valid).mpr
    (List.mem_map_of_mem (within.vertices_subset t.vertex_mem_vertices))

/-- The parent of an element is the root of a tree that has the element among its children. -/
theorem Models.parent?_eq_some (models : a.Models h) (valid : h.Valid) (live : a.Live i)
    : a.slots.parent? i = some (some j)
      ↔ ∃ t, Within h.roots t ∧ t.handle = j ∧ i ∈ t.children.map handle := by
  constructor
  · intro parent
    rcases root_or_child ((models.live_iff valid).mp live) with root | ⟨v, hv, child⟩
    · rw [models.ring_roots.parents i root] at parent
      cases parent
    · rw [(models.ring_children hv).parents i child] at parent
      cases parent
      obtain ⟨t, within, rfl⟩ := exists_within_of_vertex valid hv
      exact ⟨t, within, rfl, child⟩
  · rintro ⟨t, within, rfl, child⟩
    have vertex := within.vertices_subset t.vertex_mem_vertices
    exact (models.ring_children vertex).parents i child

/-- The roots in slots are those of the trees. -/
theorem Models.isRoot_iff (models : a.Models h) (valid : h.Valid) {t : Slot κ α}
    : a.IsRoot i t ↔ a.slots.slot? i = some t ∧ i ∈ h.roots.map handle := by
  constructor
  · rintro ⟨found, value, top⟩
    refine ⟨found, ?_⟩
    rcases root_or_child ((models.live_iff valid).mp ⟨t, found, value⟩) with root | ⟨v, hv, child⟩
    · exact root
    · have parent := (models.ring_children hv).parents i child
      simp [Slots.parent?, Slots.links?, found, top] at parent
  · rintro ⟨found, root⟩
    obtain ⟨t', found', value⟩ := (models.live_iff valid).mpr (map_handle_subset _ root)
    cases found.symm.trans found'
    have parent := models.ring_roots.parents i root
    exact ⟨found, value, by simpa [Slots.parent?, Slots.links?, found] using parent⟩

/-- A root has the degree of its tree. -/
theorem Models.exists_of_isRoot (models : a.Models h) (valid : h.Valid) {t : Slot κ α}
    (root : a.IsRoot i t)
    : ∃ r ∈ h.roots, r.handle = i ∧ r.degree = t.degree := by
  obtain ⟨found, member⟩ := (models.isRoot_iff valid).mp root
  obtain ⟨r, hr, rfl⟩ := List.mem_map.mp member
  obtain ⟨t', found', same⟩ :=
    models.exists_slot? (mem_forestVertices.mpr ⟨r, hr, r.vertex_mem_vertices⟩)
  cases found.symm.trans found'
  have degree : t.degree = r.vertex.children.length := congrArg Content.degree same
  exact ⟨r, hr, rfl, by rw [degree, vertex, List.length_map, Tree.degree]⟩

-----------------------------------------------------------------------------------------
-- The element that comes out
-----------------------------------------------------------------------------------------

variable {after : Arena κ α} {left : FibonacciHeap κ α} {e : Entry κ α}

/-- The element that came out is in no slot, and no other slot shows anything else than before. -/
theorem entry?_of_pop? (models : a.Models h) (valid : h.Valid) (popped : h.pop? = some (e, left))
    (modelled : after.Models left) (validLeft : left.Valid)
    : after.entry? e.handle = none ∧ ∀ i, i ≠ e.handle → after.entry? i = a.entry? i := by
  obtain ⟨_, _, removed⟩ := valid.pop? popped
  constructor
  · have distinct := (removed.map Entry.handle).nodup_iff.mp valid.distinct
    rw [modelled.entry? validLeft, FibonacciHeap.entry?_eq_none]
    exact (List.nodup_cons.mp distinct).1
  · intro i other
    rw [modelled.entry? validLeft, models.entry? valid]
    refine Option.ext fun f => ?_
    rw [validLeft.entry?_eq_some, valid.entry?_eq_some, removed.mem_iff, List.mem_cons]
    constructor
    · exact fun found => ⟨.inr found.1, found.2⟩
    · rintro ⟨rfl | member, named⟩
      · exact absurd named.symm other
      · exact ⟨member, named⟩

/-- What was above an element still is, by induction over the ancestors: none of them came out,
because the one that did was a root.
-/
theorem under_of_pop? (models : a.Models h) (valid : h.Valid) (popped : h.pop? = some (e, left))
    (modelled : after.Models left) (validLeft : left.Valid) (liveI : after.Live i)
    (liveJ : after.Live j) (under : a.slots.Under i j)
    : after.slots.Under i j := by
  obtain ⟨gone, kept⟩ := entry?_of_pop? models valid popped modelled validLeft
  obtain ⟨z, rest, hr, named, _⟩ := FibonacciHeap.exists_of_pop? popped
  have stays {k : Nat} (live : after.Live k) : k ≠ e.handle := by
    rintro rfl
    exact live_iff_entry?_ne_none.mp live gone
  have root : a.slots.parent? e.handle = some none := by
    refine models.ring_roots.parents _ ?_
    rw [← named, hr]
    exact List.mem_cons_self
  induction under with
  | self => exact .self
  | @child j k parent above ih =>
      have liveK : a.Live k := by
        rw [live_iff_entry?_ne_none, ← kept k (stays liveJ)]
        exact live_iff_entry?_ne_none.mp liveJ
      obtain ⟨t, within, rfl, child⟩ := (models.parent?_eq_some valid liveK).mp parent
      have other : t.entry ≠ e := by
        intro same
        have top : t.handle = e.handle := congrArg Entry.handle same
        exact stays liveI ((above.eq_of_root (top ▸ root)).trans top)
      obtain ⟨u, withinU, grown⟩ := FibonacciHeap.exists_grown_of_pop? popped within other
      have handle : u.handle = t.handle := congrArg Entry.handle grown.entry
      refine .child ?_ (ih (handle ▸ modelled.live_of_within validLeft withinU))
      exact (modelled.parent?_eq_some validLeft liveJ).mpr
        ⟨u, withinU, handle, List.map_subset _ grown.children child⟩

/-- Taking out the least element leaves a consolidated heap, if it leaves any element. -/
theorem Models.consolidated (models : a.Models h) (valid : h.Valid)
    (popped : h.pop? = some (e, left)) (modelled : after.Models left) (validLeft : left.Valid)
    (nonempty : after.size ≠ 0)
    : a.Consolidated e after := by
  obtain ⟨gone, kept⟩ := entry?_of_pop? models valid popped modelled validLeft
  obtain ⟨_, _, removed⟩ := valid.pop? popped
  obtain ⟨z, rest, hr, named, _, distinct⟩ := FibonacciHeap.exists_of_pop? popped
  constructor
  case taken =>
    refine ⟨?_, ?_⟩
    · rw [models.least, hr, ← named]
      rfl
    · rw [models.entry? valid, valid.entry?_eq_some]
      exact ⟨removed.mem_iff.mpr List.mem_cons_self, rfl⟩
  case live =>
    intro i
    rw [live_iff_entry?_ne_none, live_iff_entry?_ne_none]
    by_cases same : i = e.handle
    · subst same
      simp [gone]
    · simp [kept i same, same]
  case entry => exact kept
  case under =>
    exact fun i j liveI liveJ => under_of_pop? models valid popped modelled validLeft liveI liveJ
  case ring =>
    refine ⟨_, modelled.ringBelow_none, modelled.ring_roots.distinct, fun i => ?_⟩
    constructor
    · intro root
      obtain ⟨t, found, _⟩ := (modelled.live_iff validLeft).mpr (map_handle_subset _ root)
      exact ⟨t, (modelled.isRoot_iff validLeft).mpr ⟨found, root⟩⟩
    · rintro ⟨t, root⟩
      exact ((modelled.isRoot_iff validLeft).mp root).2
  case degree =>
    intro i j t u rootI rootJ same
    obtain ⟨r, hr, rfl, degreeI⟩ := modelled.exists_of_isRoot validLeft rootI
    obtain ⟨s, hs, rfl, degreeJ⟩ := modelled.exists_of_isRoot validLeft rootJ
    rw [List.inj_on_of_nodup_map distinct hr hs (degreeI.trans (same.trans degreeJ.symm))]
  case least =>
    obtain ⟨m, first⟩ := Option.ne_none_iff_exists'.mp
      ((modelled.least_eq_none validLeft).not.mpr nonempty)
    obtain ⟨⟨t, found, value⟩, parent⟩ := modelled.least_root validLeft first
    refine ⟨m, t, first, ⟨found, value, ?_⟩, fun i u root => ?_⟩
    · simpa [Slots.parent?, Slots.links?, found] using parent
    · exact modelled.least_key_le validLeft first found ⟨u, root.1, root.2.1⟩ root.1

/-- Whatever was asked before, taking out an element is answered, and if any element is left, the
heap is consolidated.
-/
theorem pop_consolidates {capacity : Nat} (positive : 0 < capacity)
    (requests : List (HeapRequest κ α))
    : ∃ start : Arena κ α,
        Arena.empty κ α capacity = .ok start
        ∧ ∃ replies a,
            start.performAll requests = some (replies, a)
            ∧ ∃ found after,
                a.pop = some (found, after)
                ∧ (after.size ≠ 0 → ∃ e, found = some e ∧ a.Consolidated e after) := by
  obtain ⟨start, created⟩ := exists_empty positive
  obtain ⟨replies, a, h, done, reached⟩ := exists_reached created requests
  have models := reached.models
  have valid := reached.valid
  refine ⟨start, created, replies, a, done, ?_⟩
  cases popped : h.pop? with
  | none =>
      refine ⟨none, a, models.pop_none popped, fun nonempty => absurd ?_ nonempty⟩
      rw [models.size, valid.size_eq, FibonacciHeap.pop?_eq_none.mp popped]
      rfl
  | some result =>
      obtain ⟨e, left⟩ := result
      obtain ⟨after, taken, modelled⟩ := models.pop_some valid popped
      obtain ⟨validLeft, _⟩ := valid.pop? popped
      exact ⟨some e, after, taken, fun nonempty =>
        ⟨e, rfl, models.consolidated valid popped modelled validLeft nonempty⟩⟩

/-- Requests that leave four roots, two of which have no children, and one grandchild. -/
def stirring : List (HeapRequest Int String) :=
  [.insert 0 "a", .insert 1 "b", .insert 2 "c", .insert 3 "d", .insert 4 "e", .insert 5 "f",
    .insert 6 "g", .insert 7 "h", .insert 8 "i", .pop, .decreaseKey 6 0, .decreaseKey 7 0, .pop,
    .insert 9 "j"]

/-- One of the roots comes out, its child becomes a root, and the two without children merge. -/
theorem pop_consolidates_stirring
    : 0 < 9
      ∧ ∃ start replies a after,
          Arena.empty Int String 9 = .ok start
          ∧ start.performAll stirring = some (replies, a)
          ∧ a.ringBelow none = some [7, 5, 1, 6]
          ∧ a.pop = some (some ⟨7, 0, "h"⟩, after)
          ∧ after.size ≠ 0
          ∧ after.ringBelow none = some [1, 8, 5]
          ∧ a.Consolidated ⟨7, 0, "h"⟩ after := by
  obtain ⟨start, created, computed⟩ : ∃ start : Arena Int String,
      Arena.empty Int String 9 = .ok start
      ∧ ((start.performAll stirring).bind fun stirred => stirred.2.pop.map fun popped =>
          (stirred.2.ringBelow none, popped.1, popped.2.size, popped.2.ringBelow none))
        = some (some [7, 5, 1, 6], some ⟨7, 0, "h"⟩, 7, some [1, 8, 5]) :=
    ⟨_, rfl, by decide +kernel⟩
  obtain ⟨start', created', replies, a, done, found, after, popped, consolidated⟩ :=
    pop_consolidates (by decide : 0 < 9) stirring
  cases created.symm.trans created'
  rw [done, Option.bind_some, popped, Option.map_some] at computed
  simp only [Option.some.injEq, Prod.mk.injEq] at computed
  obtain ⟨before, rfl, size, ring⟩ := computed
  have nonempty : after.size ≠ 0 := by
    rw [size]
    decide
  obtain ⟨e, same, holds⟩ := consolidated nonempty
  cases same
  exact ⟨by decide, start, replies, a, after, created, done, before, popped, nonempty, ring, holds⟩

end Arena

end Wayfinding
