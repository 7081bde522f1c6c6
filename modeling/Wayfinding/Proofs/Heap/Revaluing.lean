import Wayfinding.Proofs.Heap.Forests

/-! Modifying a value changes the one element that its handle names; keys and order stay. -/

namespace Wayfinding

variable {κ : Type u} {α : Type v}

/-- The element with a function applied to its value, if the handle names it. -/
def Entry.revalue (handle : Nat) (f : α → α) (e : Entry κ α) : Entry κ α :=
  if e.handle = handle then { e with value := f e.value } else e

@[simp] theorem Entry.handle_revalue (handle : Nat) (f : α → α) (e : Entry κ α)
    : (e.revalue handle f).handle = e.handle := by
  rw [revalue]
  split <;> rfl

@[simp] theorem Entry.key_revalue (handle : Nat) (f : α → α) (e : Entry κ α)
    : (e.revalue handle f).key = e.key := by
  rw [revalue]
  split <;> rfl

theorem Entry.revalue_of_ne {handle : Nat} {f : α → α} {e : Entry κ α} (h : e.handle ≠ handle)
    : e.revalue handle f = e := by
  simp [revalue, h]

namespace Tree

@[simp] theorem entry_modify (handle : Nat) (f : α → α) (t : Tree κ α)
    : (t.modify handle f).entry = t.entry.revalue handle f := by
  cases t
  rfl

@[simp] theorem key_modify (handle : Nat) (f : α → α) (t : Tree κ α)
    : (t.modify handle f).key = t.key := by
  simp [key]

theorem modifyForest_eq_map (handle : Nat) (f : α → α) (ts : List (Tree κ α))
    : modifyForest handle f ts = ts.map (modify handle f) := by
  induction ts with
  | nil => rfl
  | cons t ts ih => simp [modifyForest, ih]

mutual

/-- Modifying changes the value of the named element alone, by induction over the tree. -/
theorem entries_modify (handle : Nat) (f : α → α) (t : Tree κ α)
    : (t.modify handle f).entries = t.entries.map (Entry.revalue handle f) := by
  cases t with
  | node e m cs =>
      have below := forestEntries_modify handle f cs
      simp only [modify, entries, List.map_cons, Entry.revalue, below]
termination_by sizeOf t

/-- The same for a list of trees. -/
theorem forestEntries_modify (handle : Nat) (f : α → α) (ts : List (Tree κ α))
    : forestEntries (modifyForest handle f ts)
      = (forestEntries ts).map (Entry.revalue handle f) := by
  cases ts with
  | nil => rfl
  | cons t ts =>
      have head := entries_modify handle f t
      have tail := forestEntries_modify handle f ts
      simp only [modifyForest, forestEntries_cons, List.map_append, head, tail]
termination_by sizeOf ts

end

mutual

/-- Modifying keeps the heap order, by induction over the tree. -/
theorem Ordered.modify [LinearOrder κ] {t : Tree κ α} (h : t.Ordered) (handle : Nat) (f : α → α)
    : (t.modify handle f).Ordered := by
  cases t with
  | node e m cs =>
      have below : ∀ c ∈ cs, c.Ordered := h.children
      have least : ∀ c ∈ cs, e.key ≤ c.key := h.key_le_child
      have modified := orderedForest_modify below handle f
      refine .node ?_ modified
      intro c hc
      rw [modifyForest_eq_map] at hc
      obtain ⟨d, hd, rfl⟩ := List.mem_map.mp hc
      rw [key_modify]
      exact le_trans (le_of_eq (Entry.key_revalue handle f e)) (least d hd)
termination_by sizeOf t

/-- The same for a list of trees. -/
theorem orderedForest_modify [LinearOrder κ] {ts : List (Tree κ α)} (h : ∀ t ∈ ts, t.Ordered)
    (handle : Nat) (f : α → α)
    : ∀ t ∈ modifyForest handle f ts, t.Ordered := by
  cases ts with
  | nil => simp [modifyForest]
  | cons t ts =>
      intro u hu
      rw [modifyForest] at hu
      rcases List.mem_cons.mp hu with rfl | later
      · exact (h t (by simp)).modify handle f
      · exact orderedForest_modify (fun s hs => h s (List.mem_cons_of_mem t hs)) handle f u later
termination_by sizeOf ts

end

end Tree

end Wayfinding
