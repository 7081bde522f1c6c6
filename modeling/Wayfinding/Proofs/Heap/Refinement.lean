import Mathlib.Data.List.TakeWhile
import Wayfinding.FibonacciHeap.Arena
import Wayfinding.Proofs.Heap.PriorityMap
import Wayfinding.Proofs.Heap.RootRing
import Wayfinding.Proofs.Heap.SlotLowering
import Wayfinding.Proofs.Heap.SlotMerging

/-! A heap in slots answers every request as the heap of trees that its links describe, and no
request leads to a slot that is not there or follows links without end.
-/

namespace Wayfinding.Arena

open FibonacciHeap Wayfinding.Tree

variable {κ α : Type} {a : Arena κ α} {h : FibonacciHeap κ α}

/-- The slots hold the trees of the heap, the free ones are those of the freed handles, and the root
with the least key is the first one.
-/
structure Models (a : Arena κ α) (h : FibonacciHeap κ α) : Prop where
  stores : ∃ dead,
    a.slots.Stores h.roots dead
    ∧ dead.map Vertex.handle = h.free
    ∧ ∀ v ∈ dead, v.value = none ∧ v.children = []
  free : a.free = h.free
  least : a.least = h.roots.head?.map Tree.handle
  issued : a.slots.size = h.issued
  size : a.size = h.size
  capacity : a.capacity = h.capacity

-----------------------------------------------------------------------------------------
-- Looking at elements
-----------------------------------------------------------------------------------------

theorem Models.peek (models : a.Models h) : a.peek = some h.peek? := by
  obtain ⟨dead, stores, _, _⟩ := models.stores
  rw [Arena.peek, models.least]
  cases hr : h.roots with
  | nil => simp [FibonacciHeap.peek?, hr]
  | cons t ts =>
      obtain ⟨b, found, same⟩ := stores.exists_slot? (t := t) (by simp [hr])
      have key : b.key = t.key := congrArg Content.key same
      have value : b.value = some t.entry.value := congrArg Content.value same
      simp only [List.head?_cons, Option.map_some, found, value, key, FibonacciHeap.peek?, hr,
        Option.bind_eq_bind, Option.bind_some]
      rfl

section

variable [LinearOrder κ]

/-- A slot holds the element that its number names. -/
theorem Models.entry? (models : a.Models h) (valid : h.Valid) (i : Nat)
    : a.entry? i = h.entry? i := by
  obtain ⟨dead, stores, handles, empty⟩ := models.stores
  have shown {v : Vertex κ α} (hv : v ∈ forestVertices h.roots ++ dead) (named : v.handle = i)
      : a.entry? i = v.entry? := by
    obtain ⟨t, found, same⟩ := Slots.Holds.exists_slot? stores hv
    have key : t.key = v.key := congrArg Content.key same
    have value : t.value = v.value := congrArg Content.value same
    rw [named] at found
    cases hv : v.value <;> simp [Arena.entry?, found, key, value, hv, Vertex.entry?, named]
  cases found : h.entry? i with
  | some e =>
      obtain ⟨member, rfl⟩ := valid.entry?_eq_some.mp found
      obtain ⟨v, hv, same⟩ := exists_vertex member
      have named : v.handle = e.handle := by
        obtain ⟨value, _, rfl⟩ := Option.map_eq_some_iff.mp same
        rfl
      rw [shown (List.mem_append_left dead hv) named, same]
  | none =>
      have absent := FibonacciHeap.entry?_eq_none.mp found
      by_cases used : i ∈ h.free
      · rw [← handles] at used
        obtain ⟨v, hv, rfl⟩ := List.mem_map.mp used
        rw [shown (List.mem_append_right _ hv) rfl, Vertex.entry?, (empty v hv).1]
        rfl
      · have outside : ¬ i < h.issued := by
          intro inside
          have member := valid.handles.mem_iff.mpr (List.mem_range.mpr inside)
          rcases List.mem_append.mp member with live | dead
          · exact absent live
          · exact used dead
        have missing : a.slots.slot? i = none := by
          have beyond : a.slots.size ≤ i := by
            rw [models.issued]
            exact Nat.not_lt.mp outside
          exact Array.getElem?_eq_none beyond
        simp [Arena.entry?, missing]

end

-----------------------------------------------------------------------------------------
-- Modifying values
-----------------------------------------------------------------------------------------

/-- The vertex with a function applied to its value if the handle names it. -/
private def revalue (i : Nat) (f : α → α) (v : Vertex κ α) : Vertex κ α :=
  if i = v.handle then { v with value := v.value.map f } else v

mutual

/-- Modifying a value modifies that of the vertex, by induction over the tree. -/
private theorem vertices_modify (i : Nat) (f : α → α) (t : Tree κ α)
    : (t.modify i f).vertices = t.vertices.map (revalue i f)
      ∧ (t.modify i f).handle = t.handle := by
  cases t with
  | node e m cs =>
      obtain ⟨below, handles⟩ := forestVertices_modify i f cs
      rw [Tree.modify, vertices, vertices, List.map_cons, below, vertex_node, vertex_node, handles]
      by_cases same : e.handle = i
      · simp [revalue, same, Tree.handle, Tree.entry]
      · simp [revalue, same, Ne.symm same, Tree.handle, Tree.entry]
termination_by sizeOf t

private theorem forestVertices_modify (i : Nat) (f : α → α) (ts : List (Tree κ α))
    : forestVertices (modifyForest i f ts) = (forestVertices ts).map (revalue i f)
      ∧ (modifyForest i f ts).map Tree.handle = ts.map Tree.handle := by
  cases ts with
  | nil => exact ⟨rfl, rfl⟩
  | cons t ts =>
      obtain ⟨here, handle⟩ := vertices_modify i f t
      obtain ⟨later, handles⟩ := forestVertices_modify i f ts
      simp [modifyForest, here, handle, later, handles]
termination_by sizeOf ts

end

/-- Modifying a value in its slot modifies it in the heap. -/
theorem Models.modify (models : a.Models h) (i : Nat) (f : α → α)
    : (a.modify i f).Models (h.modify i f) := by
  obtain ⟨dead, stores, handles, empty⟩ := models.stores
  obtain ⟨vertices, roots⟩ := forestVertices_modify i f h.roots
  have kept : dead.map (revalue i f) = dead := by
    refine (List.map_congr_left fun v hv => ?_).trans (List.map_id dead)
    have nothing := (empty v hv).1
    cases v
    simp_all [revalue]
  have trees {slots : Slots κ α}
      (held : slots.Holds (h.roots.map Tree.handle)
        ((forestVertices h.roots).map (revalue i f) ++ dead))
      : slots.Stores (modifyForest i f h.roots) dead := by
    rw [Slots.Stores, vertices, roots]
    exact held
  have stored : ∃ slots,
      a.modify i f = { a with slots := slots }
      ∧ slots.size = a.slots.size
      ∧ slots.Stores (modifyForest i f h.roots) dead := by
    by_cases inside : i < a.slots.size
    · obtain ⟨slots, edited, size, held⟩ :=
        Slots.Holds.rewriteAll stores inside (fun c => { c with value := c.value.map f })
          (revalue i f) (fun v => by rw [revalue]; split <;> rfl)
          (fun v => by rw [revalue]; split <;> rfl)
          (fun v => by rw [revalue]; split <;> rfl)
      rw [List.map_append, kept] at held
      refine ⟨slots, ?_, size, trees held⟩
      have taken : a.slots.edit i (fun t => { t with value := t.value.map f }) = some slots :=
        edited
      rw [Arena.modify, taken]
    · have missing : a.slots.edit i (fun t => { t with value := t.value.map f }) = none :=
        if_neg inside
      have same : (forestVertices h.roots).map (revalue i f) = forestVertices h.roots := by
        refine (List.map_congr_left fun v hv => ?_).trans (List.map_id _)
        refine if_neg fun named => inside ?_
        rw [named]
        exact Slots.Holds.lt stores (List.mem_append_left dead hv)
      refine ⟨a.slots, ?_, rfl, trees (by rw [same]; exact stores)⟩
      rw [Arena.modify, missing]
  obtain ⟨slots, modified, size, stored⟩ := stored
  rw [modified]
  refine ⟨⟨dead, stored, handles, empty⟩, models.free, ?_, size.trans models.issued, models.size,
    models.capacity⟩
  rw [models.least, FibonacciHeap.modify, ← List.head?_map, ← List.head?_map, roots]

-----------------------------------------------------------------------------------------
-- Adding an element
-----------------------------------------------------------------------------------------

variable [LinearOrder κ] {ts : List (Tree κ α)} {dead : List (Vertex κ α)} {e : Entry κ α}
  {n : Nat}

/-- A slot on its own becomes a root. -/
theorem exists_addRoot
    (holds : a.slots.Holds (ts.map Tree.handle)
      ((Tree.leaf e).vertex :: (forestVertices ts ++ dead)))
    (single : a.slots.Ring none [e.handle]) (fresh : e.handle ∉ ts.map Tree.handle)
    (least : a.least = ts.head?.map Tree.handle)
    : ∃ slots,
        a.addRoot e.handle e.key
          = some { a with
              slots := slots
              least := (FibonacciHeap.addRoot (.leaf e) ts).head?.map Tree.handle }
        ∧ slots.size = a.slots.size
        ∧ slots.Stores (FibonacciHeap.addRoot (.leaf e) ts) dead := by
  cases ts with
  | nil =>
      refine ⟨a.slots, ?_, rfl, single, holds.contents, holds.rings, holds.distinct⟩
      rw [Arena.addRoot, least]
      rfl
  | cons m rest =>
      obtain ⟨slots, spliced, size, held⟩ := holds.join single fresh
      have stored : slots.Stores (m :: rest ++ [Tree.leaf e]) dead := by
        have trees : (m :: rest ++ [Tree.leaf e]).Perm (Tree.leaf e :: m :: rest) :=
          List.perm_append_singleton _ _
        rw [Slots.Stores, List.map_append]
        exact held.perm ((forestVertices_perm trees).append_right dead).symm
      obtain ⟨t, found, same⟩ := stored.exists_slot? (t := m) (by simp)
      have key : t.key = m.key := congrArg Content.key same
      have added : a.addRoot e.handle e.key
          = some { a with
              slots := slots
              least := if e.key < m.key then some e.handle else some m.handle } := by
        rw [Arena.addRoot, least]
        simp only [List.head?_cons, Option.map_some, spliced, found, key, Option.bind_eq_bind,
          Option.bind_some]
        rfl
      have leaf : (Tree.leaf e).key = e.key := rfl
      refine ⟨slots, ?_, size, ?_⟩
      · rw [added, FibonacciHeap.addRoot, leaf]
        split <;> rfl
      · rw [FibonacciHeap.addRoot, leaf]
        split
        · exact Slots.Stores.rotate (l := m :: rest) (r := [Tree.leaf e]) stored
        · exact stored

omit [LinearOrder κ] in
/-- A slot that no vertex has, once it holds an element and no links, holds a root on its own. -/
private theorem holds_fresh {slots : Slots κ α}
    (holds : a.slots.Holds (ts.map Tree.handle) (forestVertices ts ++ dead))
    (leaves : ∀ v ∈ dead, v.value = none ∧ v.children = [])
    (fresh : e.handle ∉ (forestVertices ts ++ dead).map Vertex.handle)
    (new : slots.slot? e.handle
      = some { Slot.fresh e.key e.value with left := e.handle, right := e.handle })
    (others : ∀ j, j ≠ e.handle → slots.slot? j = a.slots.slot? j)
    : slots.Holds (ts.map Tree.handle) ((Tree.leaf e).vertex :: (forestVertices ts ++ dead))
      ∧ slots.Ring none [e.handle]
      ∧ e.handle ∉ ts.map Tree.handle := by
  have freshVertex : e.handle ∉ (forestVertices ts).map Vertex.handle := by
    rw [List.map_append] at fresh
    exact fun used => fresh (List.mem_append_left _ used)
  have freshRoot : e.handle ∉ ts.map Tree.handle := fun used =>
    freshVertex (map_handle_subset ts used)
  have added := holds.add (u := (Tree.leaf e).vertex) rfl new others freshRoot fun v hv => by
    refine ⟨fun same => fresh (List.mem_map.mpr ⟨v, hv, same⟩), fun below => ?_⟩
    rcases List.mem_append.mp hv with live | gone
    · exact freshVertex (children_subset_forestVertices live below)
    · rw [(leaves v gone).2] at below
      exact List.not_mem_nil below
  exact ⟨added.1, added.2, freshRoot⟩

/-- An element in a slot that no vertex has becomes a root. -/
private theorem Models.insert_of_allot (models : a.Models h) {slots slots' : Slots κ α}
    {free : List Nat} {issued : Nat} (room : ¬ h.capacity ≤ h.size)
    (holds : a.slots.Holds (h.roots.map Tree.handle) (forestVertices h.roots ++ dead))
    (leaves : ∀ v ∈ dead, v.value = none ∧ v.children = [])
    (handles : dead.map Vertex.handle = free)
    (fresh : e.handle ∉ (forestVertices h.roots ++ dead).map Vertex.handle)
    (allotted : a.allot (.fresh e.key e.value) = some (e.handle, free, slots))
    (edited : slots.edit e.handle (fun t => { t with left := e.handle, right := e.handle })
      = some slots')
    (size : slots'.size = issued)
    (new : slots'.slot? e.handle
      = some { Slot.fresh e.key e.value with left := e.handle, right := e.handle })
    (others : ∀ j, j ≠ e.handle → slots'.slot? j = a.slots.slot? j)
    : ∃ a',
        a.insert e.key e.value = some (.ok e.handle, a')
        ∧ a'.Models
            ⟨FibonacciHeap.addRoot (.leaf e) h.roots, free, issued, h.size + 1, h.capacity⟩ := by
  obtain ⟨held, single, freshRoot⟩ := holds_fresh holds leaves fresh new others
  obtain ⟨slots'', added, size', stored⟩ :=
    exists_addRoot (a := { a with slots := slots', free := free, size := a.size + 1 })
      held single freshRoot models.least
  refine ⟨{ a with
      slots := slots''
      free := free
      size := a.size + 1
      least := (FibonacciHeap.addRoot (.leaf e) h.roots).head?.map Tree.handle }, ?_,
    ⟨dead, stored, handles, leaves⟩, rfl, rfl, size'.trans size, congrArg (· + 1) models.size,
    models.capacity⟩
  rw [Arena.insert, if_neg (by rwa [models.capacity, models.size])]
  simp only [allotted, edited, added, Option.bind_eq_bind, Option.bind_some]
  rfl

/-- A new element goes to the slot that was freed last. -/
private theorem Models.insert_freed (models : a.Models h) (room : ¬ h.capacity ≤ h.size)
    (key : κ) (value : α) {i : Nat} {free : List Nat} (freed : h.free = i :: free)
    : ∃ a',
        a.insert key value = some (.ok i, a')
        ∧ a'.Models ⟨FibonacciHeap.addRoot (.leaf ⟨i, key, value⟩) h.roots, free, h.issued,
            h.size + 1, h.capacity⟩ := by
  obtain ⟨dead, stores, handles, empty⟩ := models.stores
  cases dead with
  | nil => simp [freed] at handles
  | cons d dead =>
      obtain ⟨rfl, rest⟩ : d.handle = i ∧ dead.map Vertex.handle = free := by
        simpa [freed] using handles
      have front := Slots.Holds.perm stores List.perm_middle
      have inside : d.handle < a.slots.size := front.lt (by simp)
      obtain ⟨slots, taken, size, slot⟩ :=
        Slots.exists_edit inside fun _ => Slot.fresh key value
      obtain ⟨slots', linked, size', slot'⟩ :=
        Slots.exists_edit (s := slots) (size ▸ inside) fun t : Slot κ α =>
          { t with left := d.handle, right := d.handle }
      obtain ⟨t, found⟩ := Slots.exists_slot? inside
      refine models.insert_of_allot (e := ⟨d.handle, key, value⟩) room
        (front.sublist (List.sublist_cons_self d _))
        (fun v hv => empty v (List.mem_cons_of_mem d hv)) rest
        (List.nodup_cons.mp front.distinct).1 ?_ linked ((size'.trans size).trans models.issued)
        ?_ ?_
      · rw [Arena.allot, models.free, freed]
        simp only [taken]
        rfl
      · rw [slot', if_pos rfl, slot, if_pos rfl, found]
        rfl
      · intro j hj
        rw [slot', if_neg (Ne.symm hj), slot, if_neg (Ne.symm hj)]

/-- A new element gets a new slot if none is free. -/
private theorem Models.insert_new (models : a.Models h) (room : ¬ h.capacity ≤ h.size)
    (key : κ) (value : α) (noneFree : h.free = [])
    : ∃ a',
        a.insert key value = some (.ok h.issued, a')
        ∧ a'.Models ⟨FibonacciHeap.addRoot (.leaf ⟨h.issued, key, value⟩) h.roots, h.free,
            h.issued + 1, h.size + 1, h.capacity⟩ := by
  obtain ⟨dead, stores, handles, empty⟩ := models.stores
  have nothing : dead = [] := List.map_eq_nil_iff.mp (handles.trans noneFree)
  subst nothing
  rw [← models.issued]
  obtain ⟨slots', linked, size', slot'⟩ :=
    Slots.exists_edit (s := a.slots.push (.fresh key value)) (i := a.slots.size)
      (by simp [Slots.push, Slots.size])
      fun t : Slot κ α => { t with left := a.slots.size, right := a.slots.size }
  have pushed : ∀ j, (a.slots.push (.fresh key value)).slot? j
      = if j = a.slots.size then some (Slot.fresh key value) else a.slots.slot? j := fun j =>
    Array.getElem?_push
  refine models.insert_of_allot (e := ⟨a.slots.size, key, value⟩) room stores empty handles
    ?_ ?_ linked (size'.trans (by simp [Slots.push, Slots.size])) ?_ ?_
  · intro used
    obtain ⟨v, hv, same⟩ := List.mem_map.mp used
    exact absurd (Slots.Holds.lt stores hv) (by simp [same])
  · rw [Arena.allot, models.free, noneFree]
  · rw [slot', if_pos rfl, pushed, if_pos rfl]
    rfl
  · intro j hj
    rw [slot', if_neg (Ne.symm hj), pushed, if_neg hj]

/-- Inserting into the slots is inserting into the heap, also where it is refused. -/
theorem Models.insert (models : a.Models h) (key : κ) (value : α)
    : ∃ a',
        a.insert key value = some ((h.insert key value).1, a')
        ∧ a'.Models (h.insert key value).2 := by
  rw [FibonacciHeap.insert]
  split
  case isTrue full =>
    rw [← models.capacity, ← models.size] at full
    exact ⟨a, by rw [Arena.insert, if_pos full, models.capacity], models⟩
  case isFalse room =>
    cases freed : h.free with
    | cons i free => exact models.insert_freed room key value freed
    | nil =>
        have added := models.insert_new room key value freed
        rwa [freed] at added

-----------------------------------------------------------------------------------------
-- Taking out the least element
-----------------------------------------------------------------------------------------

/-- Merging the roots in slots merges their trees. -/
theorem exists_consolidate (stores : a.slots.Stores ts dead)
    (least : a.least = ts.head?.map Tree.handle)
    : ∃ slots table,
        a.consolidate
          = some { a with
              slots := slots
              least := (startAtLeast (FibonacciHeap.consolidate ts)).head?.map Tree.handle
              table := table }
        ∧ slots.size = a.slots.size
        ∧ slots.Stores (startAtLeast (FibonacciHeap.consolidate ts)) dead := by
  have read : a.slots.ring a.least = some (ts.map Tree.handle) := by
    rw [least, ← List.head?_map]
    exact stores.roots.read
  have unsettled : a.slots.Stores ([] ++ ts) dead := stores
  obtain ⟨slots, table, settled, size, stored, indexes⟩ :=
    unsettled.settleAll (Slots.indexes_cleared a.table)
  have found := stored.leastOf? indexes
  refine ⟨slots, table, ?_, size, stored.startAtLeast⟩
  simp only [Arena.consolidate, read, settled, found, Option.bind_eq_bind, Option.bind_some]
  rfl

/-- Without its first root the ring of the roots is merged, if any are left. -/
theorem exists_removeRoot {z : Nat}
    (holds : a.slots.Holds (z :: ts.map Tree.handle) (forestVertices ts ++ dead))
    : ∃ slots table,
        a.removeRoot z
          = some { a with
              slots := slots
              least := (startAtLeast (FibonacciHeap.consolidate ts)).head?.map Tree.handle
              table := table }
        ∧ slots.size = a.slots.size
        ∧ slots.Stores (startAtLeast (FibonacciHeap.consolidate ts)) dead := by
  obtain ⟨t, found, right⟩ : ∃ t, a.slots.slot? z = some t
      ∧ t.right = (ts.map Tree.handle).headD z := by
    simpa [Slots.right?, Slots.links?] using holds.roots.right?_first
  cases ts with
  | nil =>
      refine ⟨a.slots, a.table, ?_, rfl, Slots.ring_nil, holds.contents, holds.rings,
        holds.distinct⟩
      have alone : t.right = z := right
      simp only [Arena.removeRoot, found, alone, if_true, Option.bind_eq_bind, Option.bind_some]
      rfl
  | cons c ts =>
      have next : t.right = c.handle := right
      have differ : c.handle ≠ z := fun same =>
        (List.nodup_cons.mp holds.roots.distinct).1 (by simp [same])
      obtain ⟨slots, unlinked, size, held⟩ := Slots.Holds.unlink (l := []) holds
      obtain ⟨slots', table, merged, size', stored⟩ :=
        exists_consolidate (a := { a with slots := slots, least := some c.handle }) held rfl
      refine ⟨slots', table, ?_, size'.trans size, stored⟩
      simp only [Arena.removeRoot, found, next, differ, if_false, unlinked, merged,
        Option.bind_eq_bind, Option.bind_some]

/-- Nothing comes out of a heap without roots. -/
theorem Models.pop_none (models : a.Models h) (popped : h.pop? = none)
    : a.pop = some (none, a) := by
  have nothing : h.roots = [] := by
    cases hr : h.roots with
    | nil => rfl
    | cons z rest => simp [FibonacciHeap.pop?, hr] at popped
  rw [Arena.pop, models.least, nothing]
  rfl

omit [LinearOrder κ] in
/-- A slot that is no longer linked becomes free. -/
theorem exists_vacate {u : Vertex κ α} (stores : a.slots.Stores ts (u :: dead))
    (size : a.size = n + 1)
    : ∃ slots,
        a.vacate u.handle
          = some (u.entry?, { a with slots := slots, free := u.handle :: a.free, size := n })
        ∧ slots.size = a.slots.size
        ∧ slots.Stores ts ({ u with value := none } :: dead) := by
  have front := Slots.Holds.perm stores List.perm_middle
  obtain ⟨t, found, same⟩ := front.exists_slot? (v := u) (by simp)
  have key : t.key = u.key := congrArg Content.key same
  have value : t.value = u.value := congrArg Content.value same
  obtain ⟨slots, edited, size', held⟩ :=
    front.rewrite (w := { u with value := none }) (fun c => { c with value := none }) rfl rfl rfl
  refine ⟨slots, ?_, size', held.perm List.perm_middle.symm⟩
  have taken : a.slots.edit u.handle (fun t => { t with value := none }) = some slots := edited
  simp only [Arena.vacate, found, taken, size, key, value, Option.bind_eq_bind, Option.bind_some]
  rfl

/-- The first root comes out of its slot, its children become roots, and what is left is merged. -/
private theorem exists_pop {z : Tree κ α} (stores : a.slots.Stores (z :: ts) dead)
    (least : a.least = some z.handle) (count : a.size = n + 1)
    : ∃ slots table,
        a.pop
          = some (some z.entry, {
              slots := slots
              free := z.handle :: a.free
              least := (startAtLeast (FibonacciHeap.consolidate (ts ++ z.children))).head?.map
                Tree.handle
              size := n
              capacity := a.capacity
              table := table })
        ∧ slots.size = a.slots.size
        ∧ slots.Stores (startAtLeast (FibonacciHeap.consolidate (ts ++ z.children)))
            ({ z.vertex with value := none, children := [] } :: dead) := by
  have perm : (forestVertices (z :: ts) ++ dead).Perm
      (z.vertex :: (forestVertices (ts ++ z.children) ++ dead)) := by
    rw [forestVertices_cons, vertices_eq]
    refine List.Perm.cons _ (List.Perm.append_right dead ?_)
    rw [forestVertices_append]
    exact List.perm_append_comm
  have held : a.slots.Holds (z.vertex.handle :: ts.map Tree.handle) _ :=
    Slots.Holds.perm stores perm
  obtain ⟨t, found, same⟩ := held.exists_slot? (v := z.vertex) (by simp)
  have child : t.child = z.vertex.children.head? := congrArg Content.child same
  have read := (held.rings z.vertex (by simp)).read
  obtain ⟨s₁, s₂, released, edited, size₂, held₂⟩ := held.release
  -- The vertex of the root is no longer among those of the trees, but its slot is still a root.
  have merging : s₂.Holds (z.handle :: (ts ++ z.children).map Tree.handle)
      (forestVertices (ts ++ z.children) ++ { z.vertex with children := [] } :: dead) := by
    rw [List.map_append]
    exact held₂.perm List.perm_middle.symm
  obtain ⟨s₃, table, removed, size₃, stored₃⟩ :=
    exists_removeRoot (a := { a with slots := s₂ }) merging
  obtain ⟨s₄, vacated, size₄, stored₄⟩ := exists_vacate
    (a := { a with
      slots := s₃
      least := (startAtLeast (FibonacciHeap.consolidate (ts ++ z.children))).head?.map Tree.handle
      table := table }) stored₃ count
  refine ⟨s₄, table, ?_, (size₄.trans size₃).trans size₂, stored₄⟩
  rw [handle_vertex] at found released edited vacated
  simp only [least] at removed
  simp only [Arena.pop, least, found, child, read, released, edited, removed, vacated,
    Option.bind_eq_bind, Option.bind_some]
  rfl

/-- The element with the least key comes out of its slot, which becomes free. -/
theorem Models.pop_some (models : a.Models h) (valid : h.Valid) {after : FibonacciHeap κ α}
    (popped : h.pop? = some (e, after))
    : ∃ a', a.pop = some (some e, a') ∧ a'.Models after := by
  obtain ⟨dead, stores, handles, empty⟩ := models.stores
  cases hr : h.roots with
  | nil => simp [FibonacciHeap.pop?, hr] at popped
  | cons z rest =>
      simp only [FibonacciHeap.pop?, hr, Option.some.injEq, Prod.mk.injEq] at popped
      obtain ⟨rfl, rfl⟩ := popped
      rw [hr] at stores
      have least : a.least = some z.handle := by rw [models.least, hr]; rfl
      have count : a.size = (h.size - 1) + 1 := by
        have entries := valid.size_eq
        rw [FibonacciHeap.entries, hr, forestEntries_cons, entries_eq] at entries
        rw [models.size]
        simp only [List.cons_append, List.length_cons] at entries
        omega
      obtain ⟨slots, table, taken, size, stored⟩ := exists_pop stores least count
      refine ⟨_, taken, ⟨_, stored, ?_, fun v hv => ?_⟩, congrArg (z.handle :: ·) models.free, rfl,
        size.trans models.issued, rfl, models.capacity⟩
      · exact congrArg (z.handle :: ·) handles
      · rcases List.mem_cons.mp hv with rfl | old
        · exact ⟨rfl, rfl⟩
        · exact empty v old

-----------------------------------------------------------------------------------------
-- Lowering a key
-----------------------------------------------------------------------------------------

/-- A key that is lowered prunes the trees and may promote the root of its element. -/
private theorem exists_of_decreaseKey {key : κ} {after : FibonacciHeap κ α}
    (decreased : h.decreaseKey n key = (.ok (), after))
    : ∃ us, lowerRoots? n key h.roots = some us ∧ after = { h with roots := promote n key us } := by
  rw [FibonacciHeap.decreaseKey] at decreased
  split at decreased
  · rename_i us _ lowered
    split at decreased
    · cases decreased
    · cases decreased
      exact ⟨us, lowered, rfl⟩
  · cases decreased

/-- If a lowered key is below that of the first root, its element is a root. -/
private theorem exists_promoted {first : Tree κ α} {key : κ} {us : List (Tree κ α)}
    {after : FibonacciHeap κ α} (valid : after.Valid)
    (roots : after.roots = promote n key (first :: us))
    (present : ∃ f ∈ after.entries, f.handle = n ∧ f.key = key) (below : key < first.key)
    : ∃ u ∈ first :: us, u.handle = n := by
  by_contra absent
  have whole : startAt n (first :: us) = first :: us := by
    have other : ∀ u ∈ first :: us, (u.handle != n) = true := fun u hu => by
      simpa using fun same => absent ⟨u, hu, same⟩
    rw [startAt, List.dropWhile_eq_nil_iff.mpr other, List.takeWhile_eq_self_iff.mpr other]
    rfl
  rw [promote, if_pos below, whole] at roots
  obtain ⟨f, hf, _, key⟩ := present
  have shown : after.peek? = some first.entry := by rw [FibonacciHeap.peek?, roots]; rfl
  have le := (valid.peek?_least shown).2 f hf
  rw [key] at le
  exact absurd below (not_lt.mpr le)

/-- A key that is changed in its slot is that of the vertex, and no free slot is affected. -/
private theorem exists_rekeyed (valid : h.Valid) (he : e ∈ h.entries) (key : κ)
    (stores : a.slots.Stores h.roots dead) (handles : dead.map Vertex.handle = h.free)
    : ∃ slots,
        a.slots.edit e.handle (fun t => { t with key := key }) = some slots
        ∧ slots.size = a.slots.size
        ∧ slots.Holds (h.roots.map Tree.handle)
            ((forestVertices h.roots).map (Vertex.rekey e.handle key) ++ dead) := by
  obtain ⟨v, hv, same⟩ := exists_vertex he
  have named : v.handle = e.handle := by
    obtain ⟨value, _, rfl⟩ := Option.map_eq_some_iff.mp same
    rfl
  have inside : e.handle < a.slots.size := by
    rw [← named]
    exact Slots.Holds.lt stores (List.mem_append_left dead hv)
  have notDead : e.handle ∉ dead.map Vertex.handle := by
    have unique := valid.handles.nodup_iff.mpr List.nodup_range
    rw [handles]
    exact fun gone => (List.nodup_append.mp unique).2.2 _ (List.mem_map_of_mem he) _ gone rfl
  obtain ⟨slots, edited, size, held⟩ :=
    Slots.Holds.rewriteAll stores inside (fun c => { c with key := key })
      (Vertex.rekey e.handle key) (fun v => by simp)
      (fun v => by rw [Vertex.rekey]; split <;> rfl)
      (fun v => by
        rw [Vertex.rekey]
        by_cases same : v.handle = e.handle
        · simp [same, Vertex.content]
        · simp [same, Ne.symm same])
  rw [List.map_append, Vertex.map_rekey_of_not_mem notDead] at held
  exact ⟨slots, edited, size, held⟩

/-- Lowering a key in its slot lowers it in the heap. -/
private theorem Models.lowerKey (models : a.Models h) (valid : h.Valid) (he : e ∈ h.entries) {key : κ}
    (lower : key ≤ e.key)
    : ∃ a' after,
        a.decreaseKey e.handle key = some (.ok (), a')
        ∧ h.decreaseKey e.handle key = (.ok (), after)
        ∧ a'.Models after := by
  obtain ⟨dead, stores, handles, empty⟩ := models.stores
  obtain ⟨after, decreased, validAfter, _, entries⟩ := valid.decreaseKey he lower
  have found := valid.entry?_eq_some.mpr ⟨he, rfl⟩
  have shown := (models.entry? valid e.handle).trans found
  obtain ⟨us, lowered, result⟩ := exists_of_decreaseKey decreased
  obtain ⟨s₁, edited, size₁, held⟩ := exists_rekeyed valid he key stores handles
  obtain ⟨t, ts, hr⟩ : ∃ t ts, h.roots = t :: ts := by
    cases hr : h.roots with
    | nil => simp [FibonacciHeap.entries, hr] at he
    | cons t ts => exact ⟨t, ts, rfl⟩
  have least : a.least = some t.handle := by
    rw [models.least, hr]
    rfl
  obtain ⟨s₂, detached, size₂, stored⟩ := Slots.Stores.detach lowered held (by rw [hr]; rfl)
  -- The first root may lose children, but it stays the first with its element.
  rw [hr] at lowered
  obtain ⟨first, head, entry⟩ := lowerRoots?_head? lowered
  obtain ⟨us, rfl⟩ : ∃ rest, us = first :: rest := by
    cases us with
    | nil => simp at head
    | cons u us => exact ⟨us, by rw [Option.some.inj head]⟩
  have handle : first.handle = t.handle := by simp [Tree.handle, entry]
  obtain ⟨b, slot, sameB⟩ := stored.exists_slot? (t := first) (by simp)
  have keyB : b.key = first.key := congrArg Content.key sameB
  rw [handle] at slot
  have stepped : a.decreaseKey e.handle key = some (.ok (), { a with
      slots := s₂
      least := some (if key < first.key then e.handle else t.handle) }) := by
    simp only [Arena.decreaseKey, shown, not_lt.mpr lower, if_false, edited, least, detached, slot,
      keyB, Option.bind_eq_bind, Option.bind_some]
    rfl
  refine ⟨_, after, stepped, decreased, ?_⟩
  subst result
  refine ⟨⟨dead, ?_, handles, empty⟩, models.free, ?_, (size₂.trans size₁).trans models.issued,
    models.size, models.capacity⟩
  · rw [promote]
    split
    · exact stored.startAt _
    · exact stored
  · have present : ∃ f ∈ FibonacciHeap.entries
        { h with roots := promote e.handle key (first :: us) },
        f.handle = e.handle ∧ f.key = key :=
      ⟨_, entries.mem_iff.mpr (List.mem_map_of_mem he), Entry.handle_rekey _ _ _,
        Entry.key_rekey_of_eq rfl⟩
    by_cases below : key < first.key
    · obtain ⟨u, hu, named⟩ := exists_promoted validAfter rfl present below
      rw [if_pos below, promote, if_pos below, ← named, head?_startAt hu stored.nodup]
      rfl
    · rw [if_neg below, promote, if_neg below, ← handle]
      rfl

/-- Lowering a key in the slots is lowering it in the heap, also where it is refused. -/
theorem Models.decreaseKey (models : a.Models h) (valid : h.Valid) (n : Nat) (key : κ)
    : ∃ a',
        a.decreaseKey n key = some ((h.decreaseKey n key).1, a')
        ∧ a'.Models (h.decreaseKey n key).2 := by
  have shown := models.entry? valid n
  cases found : h.entry? n with
  | none =>
      rw [found] at shown
      rw [FibonacciHeap.decreaseKey_of_none found]
      exact ⟨a, by rw [Arena.decreaseKey, shown], models⟩
  | some e =>
      rw [found] at shown
      obtain ⟨member, rfl⟩ := valid.entry?_eq_some.mp found
      by_cases lower : key ≤ e.key
      · obtain ⟨a', after, stepped, decreased, modelled⟩ := models.lowerKey valid member lower
        rw [decreased]
        exact ⟨a', stepped, modelled⟩
      · have greater := not_le.mp lower
        rw [valid.decreaseKey_of_lt member greater]
        refine ⟨a, ?_, models⟩
        rw [Arena.decreaseKey, shown]
        exact if_pos greater

-----------------------------------------------------------------------------------------
-- One request and all requests
-----------------------------------------------------------------------------------------

/-- Answers one request. -/
def perform (a : Arena κ α) : HeapRequest κ α → Option (HeapReply κ α × Arena κ α)
  | .insert key value => (a.insert key value).map (Prod.map .ofInsert id)
  | .pop => do
      let (found, after) ← a.pop
      return (.element (found.map fun e => (e.key, e.value)), after)
  | .peek => do
      let found ← a.peek
      return (.element (found.map fun e => (e.key, e.value)), a)
  | .decreaseKey handle key => (a.decreaseKey handle key).map (Prod.map .ofDecreaseKey id)
  | .key handle => some (.key (a.key? handle), a)
  | .get handle => some (.value (a.get? handle), a)
  | .modify handle f => some (.value (a.get? handle), a.modify handle f)
  | .size => some (.size a.size, a)

/-- Answers one request after the other. -/
def performAll (a : Arena κ α) : List (HeapRequest κ α) → Option (List (HeapReply κ α) × Arena κ α)
  | [] => some ([], a)
  | request :: requests => do
      let (reply, after) ← a.perform request
      let (replies, last) ← after.performAll requests
      return (reply :: replies, last)

omit [LinearOrder κ] in
/-- The empty heap in slots is the empty heap of trees. -/
theorem models_empty {capacity : Nat} (created : Arena.empty κ α capacity = .ok a)
    : a.Models ⟨[], [], 0, 0, capacity⟩ := by
  rw [Arena.empty] at created
  split at created
  · cases created
  · cases created
    have nothing : Slots.Stores (⟨#[]⟩ : Slots κ α) [] [] :=
      ⟨Slots.ring_nil, by simp, by simp, List.nodup_nil⟩
    exact ⟨⟨[], nothing, rfl, by simp⟩, rfl, rfl, rfl, rfl, rfl⟩

/-- The slots answer a request as the trees do, by cases over the requests. -/
theorem Models.perform (models : a.Models h) (valid : h.Valid) (request : HeapRequest κ α)
    : ∃ a',
        a.perform request = some ((h.perform request).1, a') ∧ a'.Models (h.perform request).2 := by
  cases request with
  | insert key value =>
      obtain ⟨a', stepped, modelled⟩ := models.insert key value
      exact ⟨a', by rw [Arena.perform, stepped]; rfl, modelled⟩
  | pop =>
      rw [Arena.perform, FibonacciHeap.perform]
      cases popped : h.pop? with
      | none => exact ⟨a, by rw [models.pop_none popped]; rfl, models⟩
      | some result =>
          obtain ⟨e, after⟩ := result
          obtain ⟨a', stepped, modelled⟩ := models.pop_some valid popped
          exact ⟨a', by rw [stepped]; rfl, modelled⟩
  | peek => exact ⟨a, by rw [Arena.perform, models.peek]; rfl, models⟩
  | decreaseKey handle key =>
      obtain ⟨a', stepped, modelled⟩ := models.decreaseKey valid handle key
      exact ⟨a', by rw [Arena.perform, stepped]; rfl, modelled⟩
  | key handle =>
      exact ⟨a, by rw [Arena.perform, Arena.key?, models.entry? valid]; rfl, models⟩
  | get handle =>
      exact ⟨a, by rw [Arena.perform, Arena.get?, models.entry? valid]; rfl, models⟩
  | modify handle f =>
      exact ⟨_, by rw [Arena.perform, Arena.get?, models.entry? valid]; rfl, models.modify handle f⟩
  | size => exact ⟨a, by rw [Arena.perform, models.size]; rfl, models⟩

/-- The slots answer all requests as the trees do, by induction over the requests. -/
theorem Models.performAll (models : a.Models h) (valid : h.Valid)
    (requests : List (HeapRequest κ α))
    : ∃ a',
        a.performAll requests = some ((h.performAll requests).1, a')
        ∧ a'.Models (h.performAll requests).2 := by
  induction requests generalizing a h with
  | nil => exact ⟨a, rfl, models⟩
  | cons request requests ih =>
      obtain ⟨a₁, first, models₁⟩ := models.perform valid request
      obtain ⟨a₂, rest, models₂⟩ := ih models₁ (valid.perform request).2.1
      refine ⟨a₂, ?_, models₂⟩
      simp only [Arena.performAll, first, rest, Option.bind_eq_bind, Option.bind_some]
      rfl

/-- A heap that was empty before it was asked these things, in slots and in trees. The trees are
valid, and the replies are those that a map allows.
-/
structure Reached (room : Nat) (requests : List (HeapRequest κ α))
    (replies : List (HeapReply κ α)) (a : Arena κ α) (h : FibonacciHeap κ α) : Prop where
  models : a.Models h
  valid : h.Valid
  capacity : h.capacity = room
  trees : h = (FibonacciHeap.performAll ⟨[], [], 0, 0, room⟩ requests).2
  answers : PriorityMap.AnswersAll room .empty requests replies h.contents

omit [LinearOrder κ] in
theorem exists_empty {capacity : Nat} (positive : 0 < capacity)
    : ∃ start : Arena κ α, Arena.empty κ α capacity = .ok start := by
  simp [Arena.empty, Nat.pos_iff_ne_zero.mp positive]

/-- An empty heap answers whatever it is asked. -/
theorem exists_reached {capacity : Nat} (created : Arena.empty κ α capacity = .ok a)
    (requests : List (HeapRequest κ α))
    : ∃ replies last h,
        a.performAll requests = some (replies, last) ∧ Reached capacity requests replies last h := by
  have begun : FibonacciHeap.empty κ α capacity = .ok ⟨[], [], 0, 0, capacity⟩ := by
    rw [Arena.empty] at created
    split at created
    · cases created
    · rename_i positive
      exact if_neg positive
  obtain ⟨valid, nothing, _⟩ := FibonacciHeap.valid_empty begun
  obtain ⟨last, done, models⟩ := (models_empty created).performAll valid requests
  obtain ⟨answers, validLast, same⟩ := valid.performAll requests
  rw [FibonacciHeap.contents_of_nil nothing] at answers
  exact ⟨_, last, _, done, models, validLast, same, rfl, answers⟩

end Wayfinding.Arena
