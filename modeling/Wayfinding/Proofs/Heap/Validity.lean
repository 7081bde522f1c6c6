import Mathlib.Data.List.Nodup
import Wayfinding.FibonacciHeap.Basic
import Wayfinding.Proofs.Heap.Lowering
import Wayfinding.Proofs.Heap.Merging
import Wayfinding.Proofs.Heap.Revaluing

/-! What every operation of a heap does to its elements, and that it leaves a valid heap.
Elements are compared up to their order in the trees, which no operation promises to keep.
-/

namespace Wayfinding.FibonacciHeap

open Wayfinding.Tree

variable {κ : Type u} {α : Type v} [LinearOrder κ]

/-- The trees are in heap order, the first root is least, and every handle that was given out
names exactly one element or is free. There are no more handles than elements allowed.
-/
structure Valid (h : FibonacciHeap κ α) : Prop where
  ordered : ∀ t ∈ h.roots, t.Ordered
  least : ∀ first ∈ h.roots.head?, ∀ t ∈ h.roots, first.key ≤ t.key
  handles : (h.entries.map Entry.handle ++ h.free).Perm (List.range h.issued)
  size_eq : h.size = h.entries.length
  issued_le : h.issued ≤ h.capacity

/-- The empty heap is valid. -/
theorem valid_empty {capacity : Nat} {h : FibonacciHeap κ α} (he : empty κ α capacity = .ok h)
    : h.Valid ∧ h.entries = [] ∧ h.capacity = capacity := by
  rw [empty] at he
  split at he
  · simp at he
  · cases he
    exact ⟨⟨by simp, by simp, .rfl, rfl, Nat.zero_le _⟩, rfl, rfl⟩

section

variable {h : FibonacciHeap κ α}

theorem Valid.distinct (valid : h.Valid) : (h.entries.map Entry.handle).Nodup :=
  (List.nodup_append.mp (valid.handles.nodup_iff.mpr List.nodup_range)).1

theorem Valid.entry_eq (valid : h.Valid) {e f : Entry κ α} (he : e ∈ h.entries)
    (hf : f ∈ h.entries) (same : e.handle = f.handle)
    : e = f :=
  List.inj_on_of_nodup_map valid.distinct he hf same

/-- A handle of a valid heap names the element that has it. -/
theorem Valid.entry?_eq_some (valid : h.Valid) {handle : Nat} {e : Entry κ α}
    : h.entry? handle = some e ↔ e ∈ h.entries ∧ e.handle = handle := by
  constructor
  · intro found
    exact ⟨List.mem_of_find?_eq_some found, by simpa using List.find?_some found⟩
  · intro h
    obtain ⟨member, rfl⟩ := h
    cases found : h.entry? e.handle with
    | none =>
        have absent := List.find?_eq_none.mp found e member
        simp at absent
    | some f =>
        have named : f.handle = e.handle := by simpa using List.find?_some found
        rw [valid.entry_eq (List.mem_of_find?_eq_some found) member named]

omit [LinearOrder κ] in
theorem entry?_eq_none {handle : Nat}
    : h.entry? handle = none ↔ handle ∉ h.entries.map Entry.handle := by
  rw [FibonacciHeap.entry?]
  simp [List.find?_eq_none]

/-- A valid heap never holds more elements than allowed. -/
theorem Valid.size_le (valid : h.Valid) : h.size ≤ h.capacity := by
  have total := valid.handles.length_eq
  simp only [List.length_append, List.length_map, List.length_range] at total
  have size := valid.size_eq
  have issued := valid.issued_le
  omega

/-- The first root of a valid heap has the least key of all elements. -/
theorem Valid.peek?_least (valid : h.Valid) {e : Entry κ α} (he : h.peek? = some e)
    : e ∈ h.entries ∧ ∀ f ∈ h.entries, e.key ≤ f.key := by
  obtain ⟨t, ht, rfl⟩ := Option.map_eq_some_iff.mp he
  have member := List.mem_of_mem_head? ht
  constructor
  · exact mem_forestEntries.mpr ⟨t, member, t.entry_mem_entries⟩
  · exact fun f hf => key_le_forest valid.ordered (valid.least t ht) hf

omit [LinearOrder κ] in
/-- There is no least element exactly when there is no element at all. -/
theorem peek?_eq_none : h.peek? = none ↔ h.entries = [] := by
  unfold peek? entries
  cases h.roots with
  | nil => simp
  | cons t ts => simp [entries_eq t]

-----------------------------------------------------------------------------------------
-- Adding an element
-----------------------------------------------------------------------------------------

/-- A new root brings its elements to those of the ring. -/
theorem addRoot_perm (t : Tree κ α) (ts : List (Tree κ α)) : (addRoot t ts).Perm (t :: ts) := by
  unfold addRoot
  split
  · exact .rfl
  · split
    · exact .rfl
    · exact List.perm_append_comm

/-- The ring with a new root still begins with a least key. -/
theorem addRoot_least {t : Tree κ α} {ts : List (Tree κ α)}
    (least : ∀ first ∈ ts.head?, ∀ s ∈ ts, first.key ≤ s.key)
    : ∀ first ∈ (addRoot t ts).head?, ∀ s ∈ addRoot t ts, first.key ≤ s.key := by
  intro first hf s hs
  have member := (addRoot_perm t ts).mem_iff.mp hs
  cases ts with
  | nil =>
      cases hf
      rw [List.mem_singleton.mp member]
  | cons m rest =>
      have leastOld := least m rfl
      rw [addRoot] at hf
      split at hf
      · rename_i below
        cases hf
        rcases List.mem_cons.mp member with rfl | old
        · exact le_rfl
        · exact le_trans (le_of_lt below) (leastOld s old)
      · rename_i above
        cases hf
        rcases List.mem_cons.mp member with rfl | old
        · exact not_lt.mp above
        · exact leastOld s old

/-- A single element under a fresh handle becomes a root of a valid heap. -/
private theorem Valid.addLeaf (valid : h.Valid) (e : Entry κ α) {free : List Nat} {issued : Nat}
    (handles : ((e :: h.entries).map Entry.handle ++ free).Perm (List.range issued))
    (room : issued ≤ h.capacity)
    : Valid ⟨addRoot (.leaf e) h.roots, free, issued, h.size + 1, h.capacity⟩
      ∧ (forestEntries (addRoot (.leaf e) h.roots)).Perm (e :: h.entries) := by
  have entriesPerm : (forestEntries (addRoot (.leaf e) h.roots)).Perm (e :: h.entries) :=
    forestEntries_perm (addRoot_perm _ _)
  refine ⟨⟨?_, addRoot_least valid.least, ?_, ?_, room⟩, entriesPerm⟩
  · intro t ht
    rcases List.mem_cons.mp ((addRoot_perm _ _).mem_iff.mp ht) with rfl | old
    · exact ordered_leaf e
    · exact valid.ordered t old
  · exact ((entriesPerm.map Entry.handle).append_right free).trans handles
  · have count := entriesPerm.length_eq
    simp only [List.length_cons, ← valid.size_eq] at count
    exact count.symm

/-- Inserting into a heap with room adds one element under a handle that no other one has. -/
theorem Valid.insert (valid : h.Valid) (room : h.size < h.capacity) (key : κ) (value : α)
    : ∃ handle heap,
        h.insert key value = (.ok handle, heap)
        ∧ handle ∉ h.entries.map Entry.handle
        ∧ heap.Valid
        ∧ heap.capacity = h.capacity
        ∧ heap.entries.Perm (⟨handle, key, value⟩ :: h.entries) := by
  have handles := valid.handles
  have unique := handles.nodup_iff.mpr List.nodup_range
  rw [FibonacciHeap.insert]
  rw [if_neg (Nat.not_le.mpr room)]
  cases hf : h.free with
  | cons handle free =>
      rw [hf] at handles unique
      have fresh : handle ∉ h.entries.map Entry.handle := by
        intro used
        exact (List.nodup_append.mp unique).2.2 handle used handle (by simp) rfl
      obtain ⟨heapValid, entriesPerm⟩ := valid.addLeaf ⟨handle, key, value⟩
        (List.perm_middle.symm.trans handles) valid.issued_le
      exact ⟨handle, _, rfl, fresh, heapValid, rfl, entriesPerm⟩
  | nil =>
      rw [hf, List.append_nil] at handles
      have fresh : h.issued ∉ h.entries.map Entry.handle := by
        intro used
        simpa using handles.mem_iff.mp used
      have issued : h.issued + 1 ≤ h.capacity := by
        have total := handles.length_eq
        simp only [List.length_map, List.length_range, ← valid.size_eq] at total
        omega
      have extended : (((⟨h.issued, key, value⟩ : Entry κ α) :: h.entries).map Entry.handle
          ++ []).Perm (List.range (h.issued + 1)) := by
        rw [List.append_nil, List.range_succ]
        exact (handles.cons h.issued).trans (List.perm_append_singleton _ _).symm
      obtain ⟨heapValid, entriesPerm⟩ := valid.addLeaf ⟨h.issued, key, value⟩ extended issued
      exact ⟨h.issued, _, rfl, fresh, heapValid, rfl, entriesPerm⟩

theorem insert_full (full : h.capacity ≤ h.size) (key : κ) (value : α)
    : h.insert key value = (.error (.capacityExceeded h.capacity), h) := by
  simp [FibonacciHeap.insert, full]

-----------------------------------------------------------------------------------------
-- Taking out the least element
-----------------------------------------------------------------------------------------

theorem pop?_eq_none : h.pop? = none ↔ h.entries = [] := by
  unfold pop? entries
  cases h.roots with
  | nil => simp
  | cons t ts => simp [entries_eq t]

/-- What comes out is what was shown as the least element. -/
theorem pop?_map_fst : h.pop?.map Prod.fst = h.peek? := by
  unfold pop? peek?
  cases h.roots <;> rfl

/-- Taking out the least element leaves a valid heap with all others. -/
theorem Valid.pop? (valid : h.Valid) {e : Entry κ α} {heap : FibonacciHeap κ α}
    (popped : h.pop? = some (e, heap))
    : heap.Valid ∧ heap.capacity = h.capacity ∧ h.entries.Perm (e :: heap.entries) := by
  rw [FibonacciHeap.pop?] at popped
  cases hr : h.roots with
  | nil => simp [hr] at popped
  | cons z rest =>
      simp only [hr, Option.some.injEq, Prod.mk.injEq] at popped
      obtain ⟨rfl, rfl⟩ := popped
      have member : z ∈ h.roots := by simp [hr]
      have oldEntries : h.entries.Perm (z.entry :: forestEntries (rest ++ z.children)) := by
        rw [FibonacciHeap.entries, hr, forestEntries_cons, entries_eq z, forestEntries_append]
        exact List.perm_append_comm.cons z.entry
      have ringEntries := forestEntries_perm (startAtLeast_perm (consolidate (rest ++ z.children)))
      have merged := consolidate_merges (rest ++ z.children)
      have newEntries := ringEntries.trans merged.entries_perm
      have entriesPerm := oldEntries.trans (newEntries.symm.cons z.entry)
      have roots : ∀ t ∈ rest ++ z.children, t.Ordered := by
        intro t ht
        rcases List.mem_append.mp ht with later | child
        · exact valid.ordered t (by simp [hr, later])
        · exact (valid.ordered z member).children t child
      have unique := ((entriesPerm.map Entry.handle).nodup_iff.mp valid.distinct).of_cons
      refine ⟨⟨?_, ?_, ?_, ?_, valid.issued_le⟩, rfl, entriesPerm⟩
      · intro t ht
        apply merged.forall_mem (fun t c ht hc _ hk => ht.adopt hc hk) roots t
        exact (startAtLeast_perm _).mem_iff.mp ht
      · apply startAtLeast_least
        have sub := map_handle_sublist (consolidate (rest ++ z.children))
        apply sub.nodup
        refine ((merged.entries_perm.trans newEntries.symm).map Entry.handle).nodup_iff.mpr ?_
        exact unique
      · refine List.Perm.trans ?_ valid.handles
        apply List.perm_middle.trans
        exact ((entriesPerm.map Entry.handle).append_right h.free).symm
      · have count := entriesPerm.length_eq
        simp only [List.length_cons, ← valid.size_eq] at count
        exact (Nat.sub_eq_of_eq_add count)

-----------------------------------------------------------------------------------------
-- Changing an element
-----------------------------------------------------------------------------------------

/-- Reading the ring from the promoted root on keeps its trees. -/
theorem promote_perm (handle : Nat) (key : κ) (ts : List (Tree κ α))
    : (promote handle key ts).Perm ts := by
  cases ts with
  | nil => exact .rfl
  | cons m rest =>
      rw [promote]
      split
      · exact startAt_perm _ _
      · exact .rfl

/-- After a key was lowered the promoted ring begins with a least key. The bound is the key that
was the least before: if the new one is below it, its element is a root, because the root above
it can have no other handle.
-/
private theorem promote_least {handle : Nat} {key : κ} {us : List (Tree κ α)} (bound : κ)
    (ordered : ∀ u ∈ us, u.Ordered) (distinct : (us.map Tree.handle).Nodup)
    (present : ∃ g ∈ forestEntries us, g.handle = handle)
    (named : ∀ f ∈ forestEntries us, f.handle = handle → f.key = key)
    (others : ∀ f ∈ forestEntries us, f.handle ≠ handle → bound ≤ f.key)
    (head : ∀ first ∈ us.head?, first.key ≤ bound)
    : ∀ first ∈ (promote handle key us).head?,
        ∀ t ∈ promote handle key us, first.key ≤ t.key := by
  have root {u : Tree κ α} (hu : u ∈ us) : u.entry ∈ forestEntries us :=
    mem_forestEntries.mpr ⟨u, hu, u.entry_mem_entries⟩
  cases us with
  | nil => simp [promote]
  | cons m rest =>
      have headLe := head m rfl
      intro first hf t ht
      have member := (promote_perm handle key _).mem_iff.mp ht
      rw [promote] at hf
      split at hf
      · rename_i below
        obtain ⟨g, hg, hgh⟩ := present
        obtain ⟨u, hu, hgu⟩ := mem_forestEntries.mp hg
        have keyLt : key < bound := lt_of_lt_of_le below headLe
        have uKey : u.key ≤ key := named g hg hgh ▸ (ordered u hu).key_le hgu
        have uHandle : u.handle = handle := by
          by_contra other
          exact absurd (le_trans (others u.entry (root hu) other) uKey) (not_le.mpr keyLt)
        rw [← uHandle, head?_startAt hu distinct] at hf
        cases hf
        by_cases same : t.handle = handle
        · exact le_of_le_of_eq uKey (named t.entry (root member) same).symm
        · exact le_trans uKey (le_trans (le_of_lt keyLt) (others t.entry (root member) same))
      · rename_i above
        cases hf
        by_cases same : t.handle = handle
        · exact le_of_le_of_eq (not_lt.mp above) (named t.entry (root member) same).symm
        · exact le_trans headLe (others t.entry (root member) same)

/-- Lowering the key of an element leaves a valid heap in which nothing else has changed. -/
theorem Valid.decreaseKey (valid : h.Valid) {e : Entry κ α} (he : e ∈ h.entries) {key : κ}
    (lower : key ≤ e.key)
    : ∃ heap,
        h.decreaseKey e.handle key = (.ok (), heap)
        ∧ heap.Valid
        ∧ heap.capacity = h.capacity
        ∧ heap.entries.Perm (h.entries.map (Entry.rekey e.handle key)) := by
  have named {f : Entry κ α} (hf : f ∈ h.entries) (same : f.handle = e.handle) : f = e :=
    valid.entry_eq hf he same
  have found : h.entry? e.handle = some e := valid.entry?_eq_some.mpr ⟨he, rfl⟩
  cases hl : lowerRoots? e.handle key h.roots with
  | none => exact absurd (List.mem_map.mpr ⟨e, he, rfl⟩) (lowerRoots?_eq_none.mp hl)
  | some us =>
      have lowered := lowerRoots?_perm valid.distinct hl
      have entriesPerm := (forestEntries_perm (promote_perm e.handle key us)).trans lowered
      have ordered : ∀ u ∈ us, u.Ordered := by
        refine lowerRoots?_ordered valid.ordered ?_ hl
        intro f hf same
        rw [named hf same]
        exact lower
      have handles : ((forestEntries us).map Entry.handle).Perm (h.entries.map Entry.handle) := by
        refine (lowered.map Entry.handle).trans (.of_eq ?_)
        simp [List.map_map, Function.comp_def, entries]
      have changed {f : Entry κ α} (hf : f ∈ forestEntries us)
          : ∃ g ∈ h.entries, g.rekey e.handle key = f :=
        List.mem_map.mp (lowered.mem_iff.mp hf)
      refine ⟨{ h with roots := promote e.handle key us }, ?_, ⟨?_, ?_, ?_, ?_, valid.issued_le⟩,
        rfl, entriesPerm⟩
      · simp only [FibonacciHeap.decreaseKey, found, hl, if_neg (not_lt.mpr lower)]
      · exact fun t ht => ordered t ((promote_perm _ _ _).mem_iff.mp ht)
      · cases hr : h.roots with
        | nil => simp [hr, lowerRoots?] at hl
        | cons t ts =>
            rw [hr] at hl
            have least {f : Entry κ α} (hf : f ∈ h.entries) : t.key ≤ f.key :=
              key_le_forest valid.ordered (valid.least t (by simp [hr])) hf
            refine promote_least t.key ordered ?_ ?_ ?_ ?_ ?_
            · exact (map_handle_sublist us).nodup (handles.nodup_iff.mpr valid.distinct)
            · have there := handles.mem_iff.mpr (List.mem_map.mpr ⟨e, he, rfl⟩)
              obtain ⟨g, hg, same⟩ := List.mem_map.mp there
              exact ⟨g, hg, same⟩
            · intro f hf same
              obtain ⟨g, hg, rfl⟩ := changed hf
              exact Entry.key_rekey_of_eq (by simpa using same)
            · intro f hf other
              obtain ⟨g, hg, rfl⟩ := changed hf
              rw [Entry.rekey_of_ne (by simpa using other)]
              exact least hg
            · obtain ⟨first, hfirst, entryEq⟩ := lowerRoots?_head? hl
              intro u hu
              rw [hfirst] at hu
              cases hu
              have member : t.entry ∈ h.entries := by simp [entries, hr, entries_eq t]
              rw [Tree.key, entryEq]
              by_cases same : t.entry.handle = e.handle
              · rw [Entry.key_rekey_of_eq same, Tree.key, named member same]
                exact lower
              · rw [Entry.rekey_of_ne same]
                rfl
      · have mapped := (entriesPerm.map Entry.handle).trans (lowered.map Entry.handle).symm
        exact ((mapped.trans handles).append_right h.free).trans valid.handles
      · rw [FibonacciHeap.entries, entriesPerm.length_eq, List.length_map]
        exact valid.size_eq

/-- A key that would grow is refused. -/
theorem Valid.decreaseKey_of_lt (valid : h.Valid) {e : Entry κ α} (he : e ∈ h.entries) {key : κ}
    (greater : e.key < key)
    : h.decreaseKey e.handle key = (.error .keyIncreased, h) := by
  have found : h.entry? e.handle = some e := valid.entry?_eq_some.mpr ⟨he, rfl⟩
  cases hl : lowerRoots? e.handle key h.roots with
  | none => exact absurd (List.mem_map.mpr ⟨e, he, rfl⟩) (lowerRoots?_eq_none.mp hl)
  | some us => simp only [FibonacciHeap.decreaseKey, found, hl, if_pos greater]

/-- A handle without an element is refused. -/
theorem decreaseKey_of_none {handle : Nat} (absent : h.entry? handle = none) (key : κ)
    : h.decreaseKey handle key = (.error (.staleHandle handle), h) := by
  rw [FibonacciHeap.decreaseKey, absent]

omit [LinearOrder κ] in
/-- Modifying changes the value of the named element alone. -/
theorem entries_modify (h : FibonacciHeap κ α) (handle : Nat) (f : α → α)
    : (h.modify handle f).entries = h.entries.map (Entry.revalue handle f) :=
  forestEntries_modify handle f h.roots

/-- Modifying a value leaves a valid heap. -/
theorem Valid.modify (valid : h.Valid) (handle : Nat) (f : α → α) : (h.modify handle f).Valid := by
  have handles : (h.modify handle f).entries.map Entry.handle = h.entries.map Entry.handle := by
    simp [entries_modify, List.map_map, Function.comp_def]
  refine ⟨orderedForest_modify valid.ordered handle f, ?_, ?_, ?_, valid.issued_le⟩
  · intro first hf t ht
    simp only [FibonacciHeap.modify, modifyForest_eq_map, List.head?_map, Option.mem_def,
      Option.map_eq_some_iff, List.mem_map] at hf ht
    obtain ⟨m, hm, rfl⟩ := hf
    obtain ⟨s, hs, rfl⟩ := ht
    simpa only [key_modify] using valid.least m hm s hs
  · rw [handles]
    exact valid.handles
  · rw [entries_modify, List.length_map]
    exact valid.size_eq

/-- Modifying the value of an element and then lowering its key changes this element alone. -/
theorem Valid.replace (valid : h.Valid) {e : Entry κ α} (he : e ∈ h.entries) (f : α → α) {key : κ}
    (lower : key ≤ e.key)
    : ∃ heap,
        (h.modify e.handle f).decreaseKey e.handle key = (.ok (), heap)
        ∧ heap.Valid
        ∧ heap.capacity = h.capacity
        ∧ ∀ x, x ∈ heap.entries
            ↔ x = ⟨e.handle, key, f e.value⟩ ∨ x ∈ h.entries ∧ x.handle ≠ e.handle := by
  have modified : e.revalue e.handle f ∈ (h.modify e.handle f).entries := by
    rw [entries_modify]
    exact List.mem_map_of_mem he
  obtain ⟨heap, decreased, validHeap, capacity, entries⟩ :=
    (valid.modify e.handle f).decreaseKey modified (lower.trans_eq (Entry.key_revalue ..).symm)
  rw [Entry.handle_revalue] at decreased entries
  refine ⟨heap, decreased, validHeap, capacity, fun x => ?_⟩
  have taken : (e.revalue e.handle f).rekey e.handle key = ⟨e.handle, key, f e.value⟩ := by
    simp [Entry.revalue, Entry.rekey]
  have kept {y : Entry κ α} (other : y.handle ≠ e.handle)
      : (y.revalue e.handle f).rekey e.handle key = y := by
    rw [Entry.revalue_of_ne other, Entry.rekey_of_ne other]
  rw [entries.mem_iff, entries_modify, List.map_map, List.mem_map]
  constructor
  · intro changed
    obtain ⟨y, hy, rfl⟩ := changed
    by_cases same : y.handle = e.handle
    · rw [valid.entry_eq hy he same]
      exact Or.inl taken
    · rw [Function.comp_apply, kept same]
      exact Or.inr ⟨hy, same⟩
  · intro member
    rcases member with rfl | ⟨hx, other⟩
    · exact ⟨e, he, taken⟩
    · exact ⟨x, hx, kept other⟩

end

end Wayfinding.FibonacciHeap
