import Mathlib.Order.Lattice
import Wayfinding.FibonacciHeap.Tree

/-! Trees in heap order and the elements of lists of trees.
Reordering, marking and adopting trees moves elements about but never loses one.
-/

namespace Wayfinding.Tree

variable {κ : Type u} {α : Type v}

theorem entries_eq (t : Tree κ α) : t.entries = t.entry :: forestEntries t.children := by
  cases t
  rfl

theorem entry_mem_entries (t : Tree κ α) : t.entry ∈ t.entries := by
  simp [entries_eq]

@[simp] theorem forestEntries_nil : forestEntries ([] : List (Tree κ α)) = [] := rfl

@[simp] theorem forestEntries_cons (t : Tree κ α) (ts : List (Tree κ α))
    : forestEntries (t :: ts) = t.entries ++ forestEntries ts := rfl

/-- An element of a list of trees lies in one of them, by induction over the list. -/
theorem mem_forestEntries {ts : List (Tree κ α)} {e : Entry κ α}
    : e ∈ forestEntries ts ↔ ∃ t ∈ ts, e ∈ t.entries := by
  induction ts with
  | nil => simp
  | cons t ts ih => simp [ih]

/-- Reordering the trees reorders their elements, by induction over the permutation. -/
theorem forestEntries_perm {ts us : List (Tree κ α)} (h : ts.Perm us)
    : (forestEntries ts).Perm (forestEntries us) := by
  induction h with
  | nil => exact .rfl
  | cons t _ ih => exact ih.append_left t.entries
  | swap t u ts =>
      simp only [forestEntries_cons, ← List.append_assoc]
      exact List.perm_append_comm.append_right _
  | trans _ _ left right => exact left.trans right

/-- A tree and another one, wherever they stand, may be moved in front of the rest. -/
theorem pair_perm {l r l' r' : List (Tree κ α)} {t c : Tree κ α}
    (split : l ++ r = l' ++ t :: r')
    : (l ++ c :: r).Perm (t :: c :: (l' ++ r')) := by
  refine List.perm_middle.trans ?_
  rw [split]
  exact (List.perm_middle.cons c).trans (.swap t c _)

/-- The handles of the roots are among all handles, in the same order. -/
theorem map_handle_sublist (ts : List (Tree κ α))
    : (ts.map handle).Sublist ((forestEntries ts).map Entry.handle) := by
  induction ts with
  | nil => simp
  | cons t ts ih =>
      simp only [List.map_cons, forestEntries_cons, entries_eq t, List.cons_append,
        List.map_append]
      exact (ih.trans (List.sublist_append_right _ _)).cons_cons _

@[simp] theorem entry_setMarked (m : Bool) (t : Tree κ α) : (t.setMarked m).entry = t.entry := by
  cases t
  rfl

@[simp] theorem key_setMarked (m : Bool) (t : Tree κ α) : (t.setMarked m).key = t.key := by
  simp [key]

@[simp] theorem handle_setMarked (m : Bool) (t : Tree κ α)
    : (t.setMarked m).handle = t.handle := by
  simp [handle]

@[simp] theorem degree_setMarked (m : Bool) (t : Tree κ α)
    : (t.setMarked m).degree = t.degree := by
  cases t
  rfl

@[simp] theorem marked_setMarked (m : Bool) (t : Tree κ α) : (t.setMarked m).marked = m := by
  cases t
  rfl

@[simp] theorem children_setMarked (m : Bool) (t : Tree κ α)
    : (t.setMarked m).children = t.children := by
  cases t
  rfl

@[simp] theorem entry_adopt (t c : Tree κ α) : (t.adopt c).entry = t.entry := by
  cases t
  rfl

@[simp] theorem key_adopt (t c : Tree κ α) : (t.adopt c).key = t.key := by
  simp [key]

@[simp] theorem marked_adopt (t c : Tree κ α) : (t.adopt c).marked = t.marked := by
  cases t
  rfl

@[simp] theorem handle_adopt (t c : Tree κ α) : (t.adopt c).handle = t.handle := by
  simp [handle]

theorem children_adopt (t c : Tree κ α)
    : (t.adopt c).children = t.children ++ [c.setMarked false] := by
  cases t
  rfl

section Order

variable [LinearOrder κ]

/-- No element of the tree has a key below that of its parent. -/
inductive Ordered : Tree κ α → Prop
  | node {e : Entry κ α} {m : Bool} {cs : List (Tree κ α)}
    (least : ∀ c ∈ cs, e.key ≤ c.key) (below : ∀ c ∈ cs, c.Ordered)
    : Ordered (node e m cs)

theorem Ordered.children {t : Tree κ α} (h : t.Ordered) : ∀ c ∈ t.children, c.Ordered := by
  cases h with
  | node _ below => exact below

/-- No child of an ordered tree has a key below that of the root. -/
theorem Ordered.key_le_child {t : Tree κ α} (h : t.Ordered)
    : ∀ c ∈ t.children, t.key ≤ c.key := by
  cases h with
  | node least _ => exact least

theorem ordered_leaf (e : Entry κ α) : (leaf e).Ordered :=
  .node (by simp) (by simp)

theorem Ordered.setMarked {t : Tree κ α} (h : t.Ordered) (m : Bool)
    : (t.setMarked m).Ordered := by
  cases h with
  | node least below => exact .node least below

/-- A tree may adopt any ordered tree whose root has no smaller key. -/
theorem Ordered.adopt {t c : Tree κ α} (ht : t.Ordered) (hc : c.Ordered) (hk : t.key ≤ c.key)
    : (t.adopt c).Ordered := by
  cases ht with
  | node least below =>
      refine .node ?_ ?_
      · intro s hs
        rcases List.mem_append.mp hs with hs | hs
        · exact least s hs
        · rw [List.mem_singleton.mp hs, key_setMarked]
          exact hk
      · intro s hs
        rcases List.mem_append.mp hs with hs | hs
        · exact below s hs
        · rw [List.mem_singleton.mp hs]
          exact hc.setMarked false

mutual

/-- The root of an ordered tree has the least key, by induction over the tree. -/
theorem Ordered.key_le {t : Tree κ α} (h : t.Ordered) {e : Entry κ α} (he : e ∈ t.entries)
    : t.key ≤ e.key := by
  cases t with
  | node root m cs =>
      rcases List.mem_cons.mp he with rfl | he
      · exact le_rfl
      · have below : ∀ c ∈ cs, c.Ordered := h.children
        exact key_le_forest below h.key_le_child he
termination_by sizeOf t

/-- A bound on the roots of ordered trees bounds all their elements. -/
theorem key_le_forest {ts : List (Tree κ α)} (h : ∀ t ∈ ts, t.Ordered) {k : κ}
    (hk : ∀ t ∈ ts, k ≤ t.key) {e : Entry κ α} (he : e ∈ forestEntries ts)
    : k ≤ e.key := by
  cases ts with
  | nil => simp at he
  | cons t ts =>
      rcases List.mem_append.mp he with he | he
      · exact le_trans (hk t (by simp)) ((h t (by simp)).key_le he)
      · exact key_le_forest (fun s hs => h s (List.mem_cons_of_mem t hs))
          (fun s hs => hk s (List.mem_cons_of_mem t hs)) he
termination_by sizeOf ts

end

end Order

end Wayfinding.Tree
