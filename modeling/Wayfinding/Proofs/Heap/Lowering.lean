import Wayfinding.FibonacciHeap.Lower
import Wayfinding.Proofs.Heap.Forests

/-! Lowering a key changes the one element that its handle names and nothing else.
Cutting keeps the heap order, because a child stays only where its key is not below its parent's.
-/

namespace Wayfinding

/-- The element with another key, if the handle names it. -/
def Entry.rekey {κ : Type u} {α : Type v} (handle : Nat) (key : κ) (e : Entry κ α) : Entry κ α :=
  if e.handle = handle then { e with key := key } else e

@[simp] theorem Entry.handle_rekey {κ : Type u} {α : Type v} (handle : Nat) (key : κ)
    (e : Entry κ α)
    : (e.rekey handle key).handle = e.handle := by
  rw [rekey]
  split <;> rfl

theorem Entry.key_rekey_of_eq {κ : Type u} {α : Type v} {handle : Nat} {key : κ}
    {e : Entry κ α} (h : e.handle = handle)
    : (e.rekey handle key).key = key := by
  simp [rekey, h]

theorem Entry.rekey_of_ne {κ : Type u} {α : Type v} {handle : Nat} {key : κ}
    {e : Entry κ α} (h : e.handle ≠ handle)
    : e.rekey handle key = e := by
  simp [rekey, h]

/-- Elements that the handle does not name stay as they are. -/
theorem Entry.map_rekey_of_not_mem {κ : Type u} {α : Type v} {handle : Nat} {key : κ}
    {es : List (Entry κ α)} (h : handle ∉ es.map Entry.handle)
    : es.map (Entry.rekey handle key) = es := by
  refine (List.map_congr_left ?_).trans (List.map_id es)
  intro e he
  exact rekey_of_ne fun same => h (List.mem_map.mpr ⟨e, he, same⟩)

namespace FibonacciHeap

open Wayfinding.Tree

variable {κ : Type u} {α : Type v} [LinearOrder κ]

-----------------------------------------------------------------------------------------
-- Putting a child back or cutting it off
-----------------------------------------------------------------------------------------

/-- A child that is put back or cut off keeps its elements. -/
theorem reattach_perm (parent : κ) (lowered : Nat) (p : Pruned κ α (Tree κ α))
    (siblings : List (Tree κ α))
    : (forestEntries (reattach parent lowered p siblings).rest
        ++ forestEntries (reattach parent lowered p siblings).cuts).Perm
          (p.rest.entries ++ forestEntries p.cuts ++ forestEntries siblings) := by
  rw [reattach]
  split
  · simp only [forestEntries_append, forestEntries_cons, forestEntries_nil, entries_setMarked,
      List.append_nil]
    classical
    refine List.perm_iff_count.mpr fun e => ?_
    simp only [List.count_append]
    omega
  · split <;>
    · simp only [forestEntries_cons, entries_setMarked, List.append_assoc]
      exact List.perm_append_comm.append_left _

/-- What is cut off is the child or was cut off below it. -/
theorem mem_cuts_reattach {parent : κ} {lowered : Nat} {p : Pruned κ α (Tree κ α)}
    {siblings : List (Tree κ α)} {c : Tree κ α}
    (h : c ∈ (reattach parent lowered p siblings).cuts)
    : c ∈ p.cuts ∨ c = p.rest.setMarked false := by
  rw [reattach] at h
  split at h
  · simpa using h
  · split at h <;> exact Or.inl h

/-- What remains is a sibling or the child, which then was not cut off. -/
theorem mem_rest_reattach {parent : κ} {lowered : Nat} {p : Pruned κ α (Tree κ α)}
    {siblings : List (Tree κ α)} {c : Tree κ α}
    (h : c ∈ (reattach parent lowered p siblings).rest)
    : c ∈ siblings
      ∨ (c = p.rest ∨ c = p.rest.setMarked true)
        ∧ ¬ (p.rest.handle = lowered ∧ p.rest.key < parent) := by
  rw [reattach] at h
  split at h
  · exact Or.inl h
  · rename_i kept
    have keptOrder : ¬ (p.rest.handle = lowered ∧ p.rest.key < parent) :=
      fun below => kept (Or.inl below)
    split at h
    · rcases List.mem_cons.mp h with same | sibling
      · exact Or.inr ⟨Or.inr same, keptOrder⟩
      · exact Or.inl sibling
    · rcases List.mem_cons.mp h with same | sibling
      · exact Or.inr ⟨Or.inl same, keptOrder⟩
      · exact Or.inl sibling

-----------------------------------------------------------------------------------------
-- Lowering inside a tree
-----------------------------------------------------------------------------------------

mutual

/-- A tree is left alone exactly when it does not hold the handle, by induction over it. -/
theorem lowerTree?_eq_none {h : Nat} {k : κ} {t : Tree κ α}
    : lowerTree? h k t = none ↔ h ∉ t.entries.map Entry.handle := by
  cases t with
  | node e m cs =>
      rw [lowerTree?]
      split
      · rename_i same
        simp [Tree.entries, same]
      · rename_i other
        have below : lowerForest? h k e.key cs = none ↔ h ∉ (forestEntries cs).map Entry.handle :=
          lowerForest?_eq_none
        cases found : lowerForest? h k e.key cs with
        | none =>
            have absent := below.mp found
            simp only [Tree.entries, List.map_cons, List.mem_cons, not_or, true_iff]
            exact ⟨Ne.symm other, absent⟩
        | some p =>
            have present : ¬ h ∉ (forestEntries cs).map Entry.handle := by
              intro absent
              simp [below.mpr absent] at found
            simp only [Tree.entries, List.map_cons, List.mem_cons, reduceCtorEq, false_iff]
            exact fun absent => present fun inside => absent (Or.inr inside)
termination_by sizeOf t

/-- Children are left alone exactly when none of them holds the handle. -/
theorem lowerForest?_eq_none {h : Nat} {k parent : κ} {ts : List (Tree κ α)}
    : lowerForest? h k parent ts = none ↔ h ∉ (forestEntries ts).map Entry.handle := by
  cases ts with
  | nil => simp [lowerForest?]
  | cons t ts =>
      have head : lowerTree? h k t = none ↔ h ∉ t.entries.map Entry.handle :=
        lowerTree?_eq_none
      have tail : lowerForest? h k parent ts = none ↔ h ∉ (forestEntries ts).map Entry.handle :=
        lowerForest?_eq_none
      simp only [forestEntries_cons, List.map_append, List.mem_append, not_or, ← head, ← tail]
      rw [lowerForest?]
      cases lowerTree? h k t with
      | some p => simp
      | none => cases lowerForest? h k parent ts <;> simp
termination_by sizeOf ts

end

/-- Lowering keeps the root of a tree, with its new key if it is the named element. -/
theorem lowerTree?_entry {h : Nat} {k : κ} {t : Tree κ α} {p : Pruned κ α (Tree κ α)}
    (hl : lowerTree? h k t = some p)
    : p.rest.entry = t.entry.rekey h k := by
  cases t with
  | node e m cs =>
      rw [lowerTree?] at hl
      split at hl
      · rename_i same
        cases hl
        simp [entry, Entry.rekey, same]
      · rename_i other
        split at hl
        · cases hl
          exact (Entry.rekey_of_ne other).symm
        · simp at hl

mutual

/-- Lowering changes the key of the named element alone: what remains and what was cut off hold
the elements of the tree, by induction over it.
-/
theorem lowerTree?_perm {h : Nat} {k : κ} {t : Tree κ α} {p : Pruned κ α (Tree κ α)}
    (distinct : (t.entries.map Entry.handle).Nodup) (hl : lowerTree? h k t = some p)
    : (p.rest.entries ++ forestEntries p.cuts).Perm (t.entries.map (Entry.rekey h k)) := by
  cases t with
  | node e m cs =>
      simp only [Tree.entries, List.map_cons] at distinct ⊢
      obtain ⟨fresh, distinctBelow⟩ := List.nodup_cons.mp distinct
      rw [lowerTree?] at hl
      split at hl
      · rename_i same
        cases hl
        rw [same] at fresh
        simp [Tree.entries, Entry.map_rekey_of_not_mem fresh, Entry.rekey, same]
      · rename_i other
        split at hl
        · rename_i q found
          cases hl
          have below : (forestEntries q.rest ++ forestEntries q.cuts).Perm
              ((forestEntries cs).map (Entry.rekey h k)) :=
            lowerForest?_perm distinctBelow found
          simpa only [Tree.entries, Entry.rekey_of_ne other, List.cons_append] using below.cons e
        · simp at hl
termination_by sizeOf t

/-- The same for the children of an element, which may be cut off themselves. -/
theorem lowerForest?_perm {h : Nat} {k parent : κ} {ts : List (Tree κ α)}
    {p : Pruned κ α (List (Tree κ α))}
    (distinct : ((forestEntries ts).map Entry.handle).Nodup)
    (hl : lowerForest? h k parent ts = some p)
    : (forestEntries p.rest ++ forestEntries p.cuts).Perm
        ((forestEntries ts).map (Entry.rekey h k)) := by
  cases ts with
  | nil => simp [lowerForest?] at hl
  | cons t ts =>
      simp only [forestEntries_cons, List.map_append] at distinct ⊢
      obtain ⟨distinctHead, distinctTail, apart⟩ := List.nodup_append.mp distinct
      rw [lowerForest?] at hl
      split at hl
      · rename_i q found
        cases hl
        have head : (q.rest.entries ++ forestEntries q.cuts).Perm
            (t.entries.map (Entry.rekey h k)) :=
          lowerTree?_perm distinctHead found
        have present : h ∈ t.entries.map Entry.handle := by
          by_contra absent
          simp [lowerTree?_eq_none.mpr absent] at found
        have absent : h ∉ (forestEntries ts).map Entry.handle :=
          fun later => apart h present h later rfl
        rw [Entry.map_rekey_of_not_mem absent]
        exact (reattach_perm parent h q ts).trans (head.append_right _)
      · rename_i missing
        split at hl
        · rename_i q found
          cases hl
          have tail : (forestEntries q.rest ++ forestEntries q.cuts).Perm
              ((forestEntries ts).map (Entry.rekey h k)) :=
            lowerForest?_perm distinctTail found
          rw [Entry.map_rekey_of_not_mem (lowerTree?_eq_none.mp missing)]
          simpa only [forestEntries_cons, List.append_assoc] using tail.append_left t.entries
        · simp at hl
termination_by sizeOf ts

end

mutual

/-- Lowering keeps the heap order of what remains and of what was cut off, by induction over
the tree: the children of the named element have no smaller key than its new one.
-/
theorem lowerTree?_ordered {h : Nat} {k : κ} {t : Tree κ α} {p : Pruned κ α (Tree κ α)}
    (ordered : t.Ordered) (lower : ∀ e ∈ t.entries, e.handle = h → k ≤ e.key)
    (hl : lowerTree? h k t = some p)
    : p.rest.Ordered ∧ ∀ c ∈ p.cuts, c.Ordered := by
  cases t with
  | node e m cs =>
      have belowRoot : ∀ c ∈ cs, c.Ordered := ordered.children
      have leastRoot : ∀ c ∈ cs, e.key ≤ c.key := ordered.key_le_child
      rw [lowerTree?] at hl
      split at hl
      · rename_i same
        cases hl
        have lowered := lower e (by simp [Tree.entries]) same
        exact ⟨.node (fun c hc => le_trans lowered (leastRoot c hc)) belowRoot, by simp⟩
      · split at hl
        · rename_i q found
          cases hl
          have below : (∀ c ∈ q.rest, c.Ordered ∧ e.key ≤ c.key) ∧ ∀ c ∈ q.cuts, c.Ordered :=
            lowerForest?_ordered belowRoot leastRoot
              (fun f hf => lower f (by simp [Tree.entries, hf])) found
          exact ⟨.node (fun c hc => (below.1 c hc).2) (fun c hc => (below.1 c hc).1), below.2⟩
        · simp at hl
termination_by sizeOf t

/-- The same for the children of an element: those that remain have no smaller key than it. -/
theorem lowerForest?_ordered {h : Nat} {k parent : κ} {ts : List (Tree κ α)}
    {p : Pruned κ α (List (Tree κ α))} (ordered : ∀ t ∈ ts, t.Ordered)
    (least : ∀ t ∈ ts, parent ≤ t.key)
    (lower : ∀ e ∈ forestEntries ts, e.handle = h → k ≤ e.key)
    (hl : lowerForest? h k parent ts = some p)
    : (∀ c ∈ p.rest, c.Ordered ∧ parent ≤ c.key) ∧ ∀ c ∈ p.cuts, c.Ordered := by
  cases ts with
  | nil => simp [lowerForest?] at hl
  | cons t ts =>
      rw [lowerForest?] at hl
      split at hl
      · rename_i q found
        cases hl
        obtain ⟨restOrdered, cutsOrdered⟩ :=
          lowerTree?_ordered (ordered t (by simp)) (fun e he => lower e (by simp [he])) found
        constructor
        · intro c hc
          rcases mem_rest_reattach hc with sibling | ⟨child, kept⟩
          · have later := List.mem_cons_of_mem t sibling
            exact ⟨ordered c later, least c later⟩
          · have restKey : parent ≤ q.rest.key := by
              have root := lowerTree?_entry found
              by_cases named : q.rest.handle = h
              · exact not_lt.mp fun below => kept ⟨named, below⟩
              · have other : t.entry.handle ≠ h := by
                  intro same
                  exact named (by rw [Tree.handle, root, Entry.handle_rekey, same])
                rw [Tree.key, root, Entry.rekey_of_ne other]
                exact least t (by simp)
            rcases child with rfl | rfl
            · exact ⟨restOrdered, restKey⟩
            · exact ⟨restOrdered.setMarked true, by simpa using restKey⟩
        · intro c hc
          rcases mem_cuts_reattach hc with earlier | rfl
          · exact cutsOrdered c earlier
          · exact restOrdered.setMarked false
      · split at hl
        · rename_i q found
          cases hl
          obtain ⟨restOrdered, cutsOrdered⟩ :=
            lowerForest?_ordered (fun s hs => ordered s (List.mem_cons_of_mem t hs))
              (fun s hs => least s (List.mem_cons_of_mem t hs))
              (fun e he => lower e (by simp [he])) found
          refine ⟨?_, cutsOrdered⟩
          intro c hc
          rcases List.mem_cons.mp hc with rfl | later
          · exact ⟨ordered c (by simp), least c (by simp)⟩
          · exact restOrdered c later
        · simp at hl
termination_by sizeOf ts

end

-----------------------------------------------------------------------------------------
-- Lowering among the roots
-----------------------------------------------------------------------------------------

/-- The roots are left alone exactly when none of them holds the handle. -/
theorem lowerRoots?_eq_none {h : Nat} {k : κ} {ts : List (Tree κ α)}
    : lowerRoots? h k ts = none ↔ h ∉ (forestEntries ts).map Entry.handle := by
  induction ts with
  | nil => simp [lowerRoots?]
  | cons t ts ih =>
      simp only [forestEntries_cons, List.map_append, List.mem_append, not_or, ← ih,
        ← lowerTree?_eq_none (k := k)]
      rw [lowerRoots?]
      cases lowerTree? h k t <;> simp

/-- Lowering among the roots changes the key of the named element alone. -/
theorem lowerRoots?_perm {h : Nat} {k : κ} {ts us : List (Tree κ α)}
    (distinct : ((forestEntries ts).map Entry.handle).Nodup) (hl : lowerRoots? h k ts = some us)
    : (forestEntries us).Perm ((forestEntries ts).map (Entry.rekey h k)) := by
  induction ts generalizing us with
  | nil => simp [lowerRoots?] at hl
  | cons t ts ih =>
      simp only [forestEntries_cons, List.map_append] at distinct ⊢
      obtain ⟨distinctHead, distinctTail, apart⟩ := List.nodup_append.mp distinct
      rw [lowerRoots?] at hl
      split at hl
      · rename_i p found
        cases hl
        have head := lowerTree?_perm distinctHead found
        have present : h ∈ t.entries.map Entry.handle := by
          by_contra absent
          simp [lowerTree?_eq_none.mpr absent] at found
        have absent : h ∉ (forestEntries ts).map Entry.handle :=
          fun later => apart h present h later rfl
        rw [Entry.map_rekey_of_not_mem absent, List.cons_append, forestEntries_cons,
          forestEntries_append]
        refine List.Perm.trans ?_ (head.append_right _)
        rw [List.append_assoc]
        exact List.perm_append_comm.append_left _
      · rename_i missing
        obtain ⟨vs, found, rfl⟩ := Option.map_eq_some_iff.mp hl
        rw [Entry.map_rekey_of_not_mem (lowerTree?_eq_none.mp missing), forestEntries_cons]
        exact (ih distinctTail found).append_left _

/-- Lowering among the roots keeps the heap order. -/
theorem lowerRoots?_ordered {h : Nat} {k : κ} {ts us : List (Tree κ α)}
    (ordered : ∀ t ∈ ts, t.Ordered) (lower : ∀ e ∈ forestEntries ts, e.handle = h → k ≤ e.key)
    (hl : lowerRoots? h k ts = some us)
    : ∀ u ∈ us, u.Ordered := by
  induction ts generalizing us with
  | nil => simp [lowerRoots?] at hl
  | cons t ts ih =>
      rw [lowerRoots?] at hl
      split at hl
      · rename_i p found
        cases hl
        obtain ⟨restOrdered, cutsOrdered⟩ :=
          lowerTree?_ordered (ordered t (by simp)) (fun e he => lower e (by simp [he])) found
        intro u hu
        simp only [List.cons_append, List.mem_cons, List.mem_append] at hu
        rcases hu with rfl | later | cut
        · exact restOrdered
        · exact ordered u (List.mem_cons_of_mem t later)
        · exact cutsOrdered u cut
      · obtain ⟨vs, found, rfl⟩ := Option.map_eq_some_iff.mp hl
        intro u hu
        rcases List.mem_cons.mp hu with rfl | later
        · exact ordered u (by simp)
        · exact ih (fun s hs => ordered s (List.mem_cons_of_mem t hs))
            (fun e he => lower e (by simp [he])) found u later

/-- The first root stays the first one, with its new key if it is the named element. -/
theorem lowerRoots?_head? {h : Nat} {k : κ} {t : Tree κ α} {ts us : List (Tree κ α)}
    (hl : lowerRoots? h k (t :: ts) = some us)
    : ∃ first, us.head? = some first ∧ first.entry = t.entry.rekey h k := by
  rw [lowerRoots?] at hl
  split at hl
  · rename_i p found
    cases hl
    exact ⟨p.rest, rfl, lowerTree?_entry found⟩
  · rename_i missing
    obtain ⟨vs, _, rfl⟩ := Option.map_eq_some_iff.mp hl
    refine ⟨t, rfl, (Entry.rekey_of_ne ?_).symm⟩
    intro same
    have absent := lowerTree?_eq_none.mp missing
    exact absent (List.mem_map.mpr ⟨t.entry, t.entry_mem_entries, same⟩)

end FibonacciHeap

end Wayfinding
