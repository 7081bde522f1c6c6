import Mathlib.Data.Nat.Fib.Basic
import Wayfinding.Proofs.Heap.PriorityMap

/-! How many children an element can have. When a child is adopted it has as many children as the
element has then, and while it stays it loses at most one of them, which its mark records. So the
trees grow at least as the Fibonacci numbers do in the number of their root's children.
-/

namespace Wayfinding

namespace Tree

variable {κ : Type u} {α : Type v}

-----------------------------------------------------------------------------------------
-- Children that have lost at most one child
-----------------------------------------------------------------------------------------

/-- The trees stand in places from `n` on, and each has as many children as there are places before
it, except that a marked one may lack one.
-/
def Ranked : Nat → List (Tree κ α) → Prop
  | _, [] => True
  | n, c :: cs => n ≤ c.degree + c.marked.toNat ∧ Ranked (n + 1) cs

/-- The children of every element of the tree are ranked. -/
inductive Dense : Tree κ α → Prop
  | node {e : Entry κ α} {m : Bool} {cs : List (Tree κ α)} (ranked : Ranked 0 cs)
    (below : ∀ c ∈ cs, c.Dense)
    : Dense (node e m cs)

/-- Ranked trees may move to the front, by induction over them. -/
theorem Ranked.mono {n k : Nat} {cs : List (Tree κ α)} (ranked : Ranked n cs) (earlier : k ≤ n)
    : Ranked k cs := by
  induction cs generalizing n k with
  | nil => trivial
  | cons c cs ih =>
      obtain ⟨first, rest⟩ := ranked
      exact ⟨Nat.le_trans earlier first, ih rest (Nat.succ_le_succ earlier)⟩

/-- A tree with enough children may take the place behind ranked trees. -/
theorem Ranked.concat {n : Nat} {cs : List (Tree κ α)} {c : Tree κ α} (ranked : Ranked n cs)
    (enough : n + cs.length ≤ c.degree)
    : Ranked n (cs ++ [c]) := by
  induction cs generalizing n with
  | nil => exact ⟨Nat.le_add_right_of_le enough, trivial⟩
  | cons b cs ih =>
      obtain ⟨first, rest⟩ := ranked
      rw [List.length_cons] at enough
      exact ⟨first, ih rest (by omega)⟩

theorem Dense.children {t : Tree κ α} (dense : t.Dense) : ∀ c ∈ t.children, c.Dense := by
  cases dense with
  | node _ below => exact below

theorem dense_leaf (e : Entry κ α) : (leaf e).Dense :=
  .node trivial (by simp)

theorem Dense.setMarked {t : Tree κ α} (dense : t.Dense) (m : Bool) : (t.setMarked m).Dense := by
  cases dense with
  | node ranked below => exact .node ranked below

/-- A tree may adopt any other whose root has as many children as its own. -/
theorem Dense.adopt {t c : Tree κ α} (ht : t.Dense) (hc : c.Dense) (same : t.degree = c.degree)
    : (t.adopt c).Dense := by
  cases ht with
  | @node e m cs ranked below =>
      have length : cs.length = c.degree := same
      refine .node (ranked.concat ?_) ?_
      · rw [degree_setMarked, Nat.zero_add, length]
      · intro s hs
        rcases List.mem_append.mp hs with old | new
        · exact below s old
        · rw [List.mem_singleton.mp new]
          exact hc.setMarked false

-----------------------------------------------------------------------------------------
-- The size of a tree
-----------------------------------------------------------------------------------------

mutual

/-- A dense tree is at least as large as a Fibonacci number, by induction over the tree. -/
theorem Dense.fib_le {t : Tree κ α} (dense : t.Dense)
    : Nat.fib (t.degree + 2) ≤ t.entries.length := by
  cases t with
  | node e m cs =>
      have ranked : Ranked 0 cs := by
        cases dense with
        | node ranked _ => exact ranked
      have below : ∀ c ∈ cs, c.Dense := dense.children
      have bound := ranked.fib_le below
      rw [Nat.zero_add, Nat.zero_add, Nat.fib_two] at bound
      rw [Tree.entries, List.length_cons]
      exact Nat.le_trans bound (Nat.le_of_eq (Nat.add_comm 1 _))
termination_by sizeOf t

/-- Ranked trees fill the gap between two Fibonacci numbers, by induction over them: the one in
place `n` holds at least as many elements as the step from one such number to the next.
-/
theorem Ranked.fib_le {n : Nat} {cs : List (Tree κ α)} (ranked : Ranked n cs)
    (dense : ∀ c ∈ cs, c.Dense)
    : Nat.fib (n + cs.length + 2) ≤ Nat.fib (n + 2) + (forestEntries cs).length := by
  cases cs with
  | nil => exact Nat.le_add_right _ _
  | cons c cs =>
      obtain ⟨first, rest⟩ := ranked
      have here := (dense c List.mem_cons_self).fib_le
      have later : Nat.fib (n + 1 + cs.length + 2)
          ≤ Nat.fib (n + 1 + 2) + (forestEntries cs).length :=
        Ranked.fib_le rest fun s hs => dense s (List.mem_cons_of_mem c hs)
      have marked : c.marked.toNat ≤ 1 := Bool.toNat_le c.marked
      have place : Nat.fib (n + 1) ≤ Nat.fib (c.degree + 2) := Nat.fib_mono (by omega)
      have step : Nat.fib (n + 3) = Nat.fib (n + 1) + Nat.fib (n + 2) := Nat.fib_add_two
      rw [forestEntries_cons, List.length_append, List.length_cons,
        show n + (cs.length + 1) + 2 = n + 1 + cs.length + 2 by omega]
      rw [show n + 1 + 2 = n + 3 by omega] at later
      omega
termination_by sizeOf cs

end

/-- The tree is one of the listed ones or lies below one of them. -/
inductive Within (ts : List (Tree κ α)) : Tree κ α → Prop
  | root {t : Tree κ α} (member : t ∈ ts) : Within ts t
  | child {t c : Tree κ α} (above : Within ts t) (member : c ∈ t.children) : Within ts c

/-- The elements of a tree within others are among theirs. -/
theorem Within.sublist {ts : List (Tree κ α)} {t : Tree κ α} (within : Within ts t)
    : t.entries.Sublist (forestEntries ts) := by
  have single {us : List (Tree κ α)} {u : Tree κ α} (member : u ∈ us)
      : u.entries.Sublist (forestEntries us) := by
    obtain ⟨before, after, rfl⟩ := List.append_of_mem member
    rw [forestEntries_append, forestEntries_cons]
    exact (List.sublist_append_left _ _).trans (List.sublist_append_right _ _)
  induction within with
  | root member => exact single member
  | @child t c _ member ih =>
      refine (single member).trans (List.Sublist.trans ?_ ih)
      rw [entries_eq t]
      exact List.sublist_cons_self _ _

theorem Within.dense {ts : List (Tree κ α)} {t : Tree κ α} (within : Within ts t)
    (dense : ∀ s ∈ ts, s.Dense)
    : t.Dense := by
  induction within with
  | root member => exact dense _ member
  | child _ member ih => exact ih.children _ member

mutual

/-- Every element of a tree is the root of a tree within it, by induction over the tree. -/
theorem exists_within_tree {ts : List (Tree κ α)} {t : Tree κ α} (within : Within ts t)
    {e : Entry κ α} (member : e ∈ t.entries)
    : ∃ s, Within ts s ∧ s.entry = e := by
  cases t with
  | node root m cs =>
      rcases List.mem_cons.mp member with rfl | below
      · exact ⟨_, within, rfl⟩
      · have children : ∀ c ∈ cs, Within ts c := fun c hc => within.child hc
        exact exists_within_forest children below
termination_by sizeOf t

/-- The same for the elements of a list of trees. -/
theorem exists_within_forest {ts us : List (Tree κ α)} (within : ∀ u ∈ us, Within ts u)
    {e : Entry κ α} (member : e ∈ forestEntries us)
    : ∃ s, Within ts s ∧ s.entry = e := by
  cases us with
  | nil => simp at member
  | cons u us =>
      rcases List.mem_append.mp member with here | later
      · exact exists_within_tree (within u List.mem_cons_self) here
      · exact exists_within_forest (fun s hs => within s (List.mem_cons_of_mem u hs)) later
termination_by sizeOf us

end

-----------------------------------------------------------------------------------------
-- Modifying values
-----------------------------------------------------------------------------------------

mutual

/-- Modifying a value changes no mark and no degree, by induction over the tree. -/
theorem Dense.modify {t : Tree κ α} (dense : t.Dense) (handle : Nat) (f : α → α)
    : (t.modify handle f).Dense := by
  cases t with
  | node e m cs =>
      have ranked : Ranked 0 cs := by
        cases dense with
        | node ranked _ => exact ranked
      have below : ∀ c ∈ cs, c.Dense := dense.children
      obtain ⟨rankedAfter, denseAfter⟩ := ranked.modify below handle f
      exact .node rankedAfter denseAfter
termination_by sizeOf t

/-- The same for ranked trees. -/
theorem Ranked.modify {n : Nat} {cs : List (Tree κ α)} (ranked : Ranked n cs)
    (dense : ∀ c ∈ cs, c.Dense) (handle : Nat) (f : α → α)
    : Ranked n (modifyForest handle f cs) ∧ ∀ c ∈ modifyForest handle f cs, c.Dense := by
  cases cs with
  | nil => exact ⟨trivial, by simp [modifyForest]⟩
  | cons c cs =>
      obtain ⟨first, rest⟩ := ranked
      have here := (dense c List.mem_cons_self).modify handle f
      obtain ⟨rankedLater, denseLater⟩ : Ranked (n + 1) (modifyForest handle f cs)
          ∧ ∀ s ∈ modifyForest handle f cs, s.Dense :=
        Ranked.modify rest (fun s hs => dense s (List.mem_cons_of_mem c hs)) handle f
      have shape : (c.modify handle f).degree = c.degree
          ∧ (c.modify handle f).marked = c.marked := by
        cases c with
        | node e m cs =>
            refine ⟨?_, rfl⟩
            simp only [degree, children, Tree.modify, modifyForest_eq_map, List.length_map]
      refine ⟨⟨?_, rankedLater⟩, List.forall_mem_cons.mpr ⟨here, denseLater⟩⟩
      rw [shape.1, shape.2]
      exact first
termination_by sizeOf cs

end

end Tree

namespace FibonacciHeap

open Wayfinding.Tree

variable {κ : Type u} {α : Type v} [LinearOrder κ]

-----------------------------------------------------------------------------------------
-- Lowering keys
-----------------------------------------------------------------------------------------

/-- A child that is put back has lost at most one child, and one that is cut off leaves its place
to the others.
-/
theorem ranked_reattach {n : Nat} (parent : κ) (lowered : Nat) {t : Tree κ α}
    {p : Pruned κ α (Tree κ α)} {siblings : List (Tree κ α)}
    (degree : p.rest.degree + p.lost.toNat = t.degree) (marked : p.rest.marked = t.marked)
    (ranked : Ranked n (t :: siblings))
    : Ranked n (reattach parent lowered p siblings).rest
      ∧ (reattach parent lowered p siblings).rest.length
          + (reattach parent lowered p siblings).lost.toNat
        = (t :: siblings).length := by
  obtain ⟨first, rest⟩ := ranked
  rw [← degree, ← marked] at first
  rw [reattach]
  split
  · exact ⟨rest.mono (Nat.le_succ n), rfl⟩
  · rename_i kept
    split
    · rename_i lost
      have unmarked : p.rest.marked = false := by
        cases m : p.rest.marked with
        | false => rfl
        | true => exact absurd (Or.inr ⟨lost, m⟩) kept
      rw [lost, unmarked] at first
      exact ⟨⟨by simpa using first, rest⟩, rfl⟩
    · rename_i whole
      rw [Bool.not_eq_true] at whole
      rw [whole] at first
      exact ⟨⟨first, rest⟩, rfl⟩

theorem dense_reattach (parent : κ) (lowered : Nat) {p : Pruned κ α (Tree κ α)}
    {siblings : List (Tree κ α)} (rest : p.rest.Dense) (cuts : ∀ c ∈ p.cuts, c.Dense)
    (others : ∀ c ∈ siblings, c.Dense)
    : (∀ c ∈ (reattach parent lowered p siblings).rest, c.Dense)
      ∧ ∀ c ∈ (reattach parent lowered p siblings).cuts, c.Dense := by
  constructor
  · intro c hc
    rcases mem_rest_reattach hc with sibling | ⟨rfl | rfl, _⟩
    · exact others c sibling
    · exact rest
    · exact rest.setMarked true
  · intro c hc
    rcases mem_cuts_reattach hc with earlier | rfl
    · exact cuts c earlier
    · exact rest.setMarked false

mutual

/-- Lowering a key leaves dense trees, by induction over the tree. The root keeps its mark, and it
loses a child exactly when that is said.
-/
theorem lowerTree?_dense {h : Nat} {k : κ} {t : Tree κ α} {p : Pruned κ α (Tree κ α)}
    (dense : t.Dense) (hl : lowerTree? h k t = some p)
    : p.rest.Dense
      ∧ (∀ c ∈ p.cuts, c.Dense)
      ∧ p.rest.degree + p.lost.toNat = t.degree
      ∧ p.rest.marked = t.marked := by
  cases t with
  | node e m cs =>
      have ranked : Ranked 0 cs := by
        cases dense with
        | node ranked _ => exact ranked
      have below : ∀ c ∈ cs, c.Dense := dense.children
      rw [lowerTree?] at hl
      split at hl
      · cases hl
        exact ⟨.node ranked below, by simp, rfl, rfl⟩
      · split at hl
        · rename_i q found
          cases hl
          obtain ⟨rest, cuts, rankedRest, length⟩ := lowerForest?_dense ranked below found
          exact ⟨.node rankedRest rest, cuts, length, rfl⟩
        · simp at hl
termination_by sizeOf t

/-- The same for ranked trees, which may close up. -/
theorem lowerForest?_dense {h n : Nat} {k parent : κ} {ts : List (Tree κ α)}
    {p : Pruned κ α (List (Tree κ α))} (ranked : Ranked n ts) (dense : ∀ t ∈ ts, t.Dense)
    (hl : lowerForest? h k parent ts = some p)
    : (∀ c ∈ p.rest, c.Dense)
      ∧ (∀ c ∈ p.cuts, c.Dense)
      ∧ Ranked n p.rest
      ∧ p.rest.length + p.lost.toNat = ts.length := by
  cases ts with
  | nil => simp [lowerForest?] at hl
  | cons t ts =>
      have later : ∀ s ∈ ts, s.Dense := fun s hs => dense s (List.mem_cons_of_mem t hs)
      rw [lowerForest?] at hl
      split at hl
      · rename_i q found
        cases hl
        obtain ⟨rest, cuts, degree, marked⟩ :=
          lowerTree?_dense (dense t List.mem_cons_self) found
        obtain ⟨restDense, cutsDense⟩ := dense_reattach parent h rest cuts later
        obtain ⟨rankedRest, length⟩ := ranked_reattach parent h degree marked ranked
        exact ⟨restDense, cutsDense, rankedRest, length⟩
      · split at hl
        · rename_i q found
          cases hl
          obtain ⟨first, rankedLater⟩ := ranked
          obtain ⟨rest, cuts, rankedRest, length⟩ := lowerForest?_dense rankedLater later found
          refine ⟨List.forall_mem_cons.mpr ⟨dense t List.mem_cons_self, rest⟩, cuts,
            ⟨first, rankedRest⟩, ?_⟩
          simp only [List.length_cons]
          omega
        · simp at hl
termination_by sizeOf ts

end

/-- Lowering a key among dense roots leaves dense roots. -/
theorem lowerRoots?_dense {h : Nat} {k : κ} {ts us : List (Tree κ α)}
    (dense : ∀ t ∈ ts, t.Dense) (hl : lowerRoots? h k ts = some us)
    : ∀ u ∈ us, u.Dense := by
  induction ts generalizing us with
  | nil => simp [lowerRoots?] at hl
  | cons t ts ih =>
      have later : ∀ s ∈ ts, s.Dense := fun s hs => dense s (List.mem_cons_of_mem t hs)
      rw [lowerRoots?] at hl
      split at hl
      · rename_i p found
        cases hl
        obtain ⟨rest, cuts, _, _⟩ := lowerTree?_dense (dense t List.mem_cons_self) found
        intro u hu
        simp only [List.cons_append, List.mem_cons, List.mem_append] at hu
        rcases hu with rfl | old | cut
        · exact rest
        · exact later u old
        · exact cuts u cut
      · obtain ⟨vs, found, rfl⟩ := Option.map_eq_some_iff.mp hl
        exact List.forall_mem_cons.mpr ⟨dense t List.mem_cons_self, ih later found⟩

-----------------------------------------------------------------------------------------
-- One request and all requests
-----------------------------------------------------------------------------------------

variable {h : FibonacciHeap κ α}

/-- All trees of the heap are dense. -/
def Dense (h : FibonacciHeap κ α) : Prop :=
  ∀ t ∈ h.roots, t.Dense

theorem Dense.insert (dense : h.Dense) (key : κ) (value : α)
    : (h.insert key value).2.Dense := by
  have added {e : Entry κ α} : ∀ t ∈ addRoot (leaf e) h.roots, t.Dense := by
    intro t ht
    rcases List.mem_cons.mp ((addRoot_perm _ _).mem_iff.mp ht) with rfl | old
    · exact dense_leaf e
    · exact dense t old
  rw [FibonacciHeap.insert]
  split
  · exact dense
  · split <;> exact added

/-- The children of the least element and the other roots merge by adoption between trees of one
degree.
-/
theorem Dense.pop? (dense : h.Dense) {e : Entry κ α} {heap : FibonacciHeap κ α}
    (popped : h.pop? = some (e, heap))
    : heap.Dense := by
  rw [FibonacciHeap.pop?] at popped
  split at popped
  · simp at popped
  · rename_i z rest hr
    cases popped
    have roots : ∀ t ∈ rest ++ z.children, t.Dense := by
      intro t ht
      rcases List.mem_append.mp ht with later | child
      · exact dense t (by simp [hr, later])
      · exact (dense z (by simp [hr])).children t child
    intro t ht
    refine (consolidate_merges _).forall_mem (fun t c ht hc same _ => ht.adopt hc same) roots t ?_
    exact (startAtLeast_perm _).mem_iff.mp ht

theorem Dense.decreaseKey (dense : h.Dense) (handle : Nat) (key : κ)
    : (h.decreaseKey handle key).2.Dense := by
  rw [FibonacciHeap.decreaseKey]
  split
  · rename_i e us _ hl
    split
    · exact dense
    · intro t ht
      exact lowerRoots?_dense dense hl t ((promote_perm _ _ _).mem_iff.mp ht)
  · exact dense

/-- Every request leaves dense trees, by cases over the requests. -/
theorem Dense.perform (dense : h.Dense) (request : HeapRequest κ α)
    : (h.perform request).2.Dense := by
  cases request with
  | insert key value => exact dense.insert key value
  | pop =>
      rw [FibonacciHeap.perform]
      split
      · rename_i popped
        exact dense.pop? popped
      · exact dense
  | decreaseKey handle key => exact dense.decreaseKey handle key
  | modify handle f =>
      intro t ht
      simp only [FibonacciHeap.perform, FibonacciHeap.modify, modifyForest_eq_map] at ht
      obtain ⟨s, hs, rfl⟩ := List.mem_map.mp ht
      exact (dense s hs).modify handle f
  | peek => exact dense
  | key handle => exact dense
  | get handle => exact dense
  | size => exact dense

theorem Dense.performAll (dense : h.Dense) (requests : List (HeapRequest κ α))
    : (h.performAll requests).2.Dense := by
  induction requests generalizing h with
  | nil => exact dense
  | cons request requests ih => exact ih (dense.perform request)

/-- Every element is the root of a tree that holds at least as many of the elements as a Fibonacci
number given by its degree, so no degree exceeds what the size of the heap allows.
-/
structure FibonacciBounded (h : FibonacciHeap κ α) : Prop where
  rooted : ∀ e ∈ h.entries, ∃ t, Tree.Within h.roots t ∧ t.entry = e
  sublist : ∀ t, Tree.Within h.roots t → t.entries.Sublist h.entries
  fib_le_length : ∀ t, Tree.Within h.roots t → Nat.fib (t.degree + 2) ≤ t.entries.length
  fib_le_size : ∀ t, Tree.Within h.roots t → Nat.fib (t.degree + 2) ≤ h.size

theorem Dense.fibonacciBounded (dense : h.Dense) (valid : h.Valid) : h.FibonacciBounded where
  rooted := fun _ he => Tree.exists_within_forest (fun _ ht => .root ht) he
  sublist := fun _ within => within.sublist
  fib_le_length := fun _ within => (within.dense dense).fib_le
  fib_le_size := fun _ within => by
    rw [valid.size_eq]
    exact (within.dense dense).fib_le.trans within.sublist.length_le

end FibonacciHeap

end Wayfinding
