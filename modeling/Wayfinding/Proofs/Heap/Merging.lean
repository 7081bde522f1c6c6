import Wayfinding.FibonacciHeap.Consolidate
import Wayfinding.Proofs.Heap.Forests

/-! Consolidation merges the roots until their degrees differ, without losing an element or the heap
order, and the ring that is read from its least root on begins with a least key.
-/

namespace Wayfinding.FibonacciHeap

variable {κ : Type u} {α : Type v}

open Wayfinding.Tree

theorem startAt_perm (handle : Nat) (ring : List (Tree κ α)) : (startAt handle ring).Perm ring := by
  apply List.perm_append_comm.trans
  rw [List.takeWhile_append_dropWhile]

/-- The ring read from a root on begins with that root, if no other one has its handle;
by induction over the ring.
-/
theorem head?_startAt {ring : List (Tree κ α)} {t : Tree κ α} (ht : t ∈ ring)
    (distinct : (ring.map Tree.handle).Nodup)
    : (startAt t.handle ring).head? = some t := by
  have dropped : (ring.dropWhile (fun u => u.handle != t.handle)).head? = some t := by
    induction ring with
    | nil => simp at ht
    | cons s ring ih =>
        obtain ⟨fresh, rest⟩ := List.nodup_cons.mp distinct
        rcases List.mem_cons.mp ht with rfl | later
        · simp
        · have other : s.handle ≠ t.handle := by
            intro same
            exact fresh (List.mem_map.mpr ⟨t, later, same.symm⟩)
          rw [List.dropWhile_cons_of_pos (by simpa using other)]
          exact ih later rest
  rw [startAt, List.head?_append, dropped, Option.some_or]

variable [LinearOrder κ] {ts us : List (Tree κ α)}

-----------------------------------------------------------------------------------------
-- Merges
-----------------------------------------------------------------------------------------

/-- The trees `us` come of `ts` by merges: again and again, of two trees of the same degree one
adopts the other, whose key is not smaller. The trees may change their places.
-/
inductive Merges : List (Tree κ α) → List (Tree κ α) → Prop
  | done {ts us : List (Tree κ α)} (same : ts.Perm us) : Merges ts us
  | adopt {ts us others : List (Tree κ α)} {t c : Tree κ α} (found : ts.Perm (t :: c :: others))
    (degree : t.degree = c.degree) (key : t.key ≤ c.key)
    (rest : Merges (t.adopt c :: others) us)
    : Merges ts us

theorem Merges.of_perm {vs : List (Tree κ α)} (same : ts.Perm us) (merges : Merges us vs)
    : Merges ts vs := by
  cases merges with
  | done moved => exact .done (same.trans moved)
  | adopt found degree key rest => exact .adopt (same.trans found) degree key rest

theorem Merges.trans {vs : List (Tree κ α)} (first : Merges ts us) (second : Merges us vs)
    : Merges ts vs := by
  induction first with
  | done same => exact .of_perm same second
  | adopt found degree key _ ih => exact .adopt found degree key (ih second)

/-- Trees may stand by without taking part. -/
theorem Merges.append_right (merges : Merges ts us) (others : List (Tree κ α))
    : Merges (ts ++ others) (us ++ others) := by
  induction merges with
  | done same => exact .done (same.append_right others)
  | adopt found degree key _ ih => exact .adopt (found.append_right others) degree key ih

/-- One merge among trees in their places: `c` leaves its own and `t` adopts it. -/
theorem Merges.of_pair {l r l' r' : List (Tree κ α)} {t c : Tree κ α}
    (split : l ++ r = l' ++ t :: r') (degree : t.degree = c.degree) (key : t.key ≤ c.key)
    (rest : Merges (l' ++ t.adopt c :: r') us)
    : Merges (l ++ c :: r) us :=
  .adopt (pair_perm split) degree key (.of_perm List.perm_middle.symm rest)

/-- Whatever adoption between trees of one degree keeps, merges keep for all trees. -/
theorem Merges.forall_mem {P : Tree κ α → Prop}
    (adopt : ∀ t c, P t → P c → t.degree = c.degree → t.key ≤ c.key → P (t.adopt c))
    (merges : Merges ts us) (h : ∀ t ∈ ts, P t)
    : ∀ u ∈ us, P u := by
  induction merges with
  | done same => exact fun u hu => h u (same.mem_iff.mpr hu)
  | @adopt _ _ others t c found degree key _ ih =>
      have before : ∀ s ∈ t :: c :: others, P s := fun s hs => h s (found.mem_iff.mpr hs)
      refine ih fun s hs => ?_
      rcases List.mem_cons.mp hs with rfl | later
      · exact adopt t c (before t (by simp)) (before c (by simp)) degree key
      · exact before s (by simp [later])

/-- Merges keep all elements. -/
theorem Merges.entries_perm (merges : Merges ts us)
    : (forestEntries us).Perm (forestEntries ts) := by
  induction merges with
  | done same => exact (forestEntries_perm same).symm
  | @adopt _ _ others t c found _ _ _ ih =>
      refine ih.trans (.trans (.of_eq ?_) (forestEntries_perm found).symm)
      simp [entries_adopt]

-----------------------------------------------------------------------------------------
-- Settling and consolidating
-----------------------------------------------------------------------------------------

/-- Settling a root merges it with others, by induction along its own cases. -/
theorem settle_merges (before : List (Tree κ α)) (x : Tree κ α) (after : List (Tree κ α))
    : Merges (before ++ x :: after) (settle before x after) := by
  fun_induction settle before x after with
  | case1 before x after left y right hb less ih =>
      obtain ⟨rfl, degree⟩ := splitAtDegree?_eq_some hb
      exact .of_pair (by simp) degree less.le ih
  | case2 before x after left y right hb notLess ih =>
      obtain ⟨rfl, degree⟩ := splitAtDegree?_eq_some hb
      have merged : Merges (left ++ y :: (right ++ x :: after)) _ :=
        .of_pair (by simp) degree.symm (not_lt.mp notLess) ih
      simpa using merged
  | case3 before x after hb left y right ha less ih =>
      obtain ⟨rfl, degree⟩ := splitAtDegree?_eq_some ha
      exact .of_pair (by simp) degree less.le ih
  | case4 before x after hb left y right ha notLess ih =>
      obtain ⟨rfl, degree⟩ := splitAtDegree?_eq_some ha
      have merged : Merges ((before ++ x :: left) ++ y :: right) _ :=
        .of_pair (by simp) degree.symm (not_lt.mp notLess) ih
      simpa using merged
  | case5 before x after hb ha => exact .done .rfl

/-- Consolidation merges the roots, by induction over those that are still to be settled. -/
theorem consolidate_merges (ring : List (Tree κ α)) : Merges ring (consolidate ring) := by
  have step : ∀ settled : List (Tree κ α),
      Merges (settled ++ ring) (ring.foldl (fun settled x => settle settled x []) settled) := by
    induction ring with
    | nil => exact fun settled => .done (.of_eq (List.append_nil settled))
    | cons x ring ih =>
        intro settled
        have first := (settle_merges settled x []).append_right ring
        rw [List.append_assoc] at first
        exact first.trans (ih _)
  exact step []

omit [LinearOrder κ] in
/-- A root that meets none of its degree has another degree than all settled ones. -/
theorem degree_ne_of_splitAtDegree? {before after : List (Tree κ α)} {d : Nat}
    (hb : splitAtDegree? d before = none) (ha : splitAtDegree? d after = none)
    : ∀ t ∈ before ++ after, t.degree ≠ d := by
  intro t ht
  rcases List.mem_append.mp ht with left | right
  · exact splitAtDegree?_eq_none.mp hb t left
  · exact splitAtDegree?_eq_none.mp ha t right

/-- Settling a root among others of different degrees leaves roots of different degrees. -/
theorem settle_nodup {before after : List (Tree κ α)} {x : Tree κ α}
    (distinct : ((before ++ after).map degree).Nodup)
    : ((settle before x after).map degree).Nodup := by
  have drop {l r : List (Tree κ α)} {y : Tree κ α} (h : ((l ++ y :: r).map degree).Nodup)
      : ((l ++ r).map degree).Nodup :=
    h.sublist (((List.sublist_cons_self y r).append_left l).map degree)
  fun_induction settle before x after with
  | case1 before x after left y right hb less ih =>
      obtain ⟨rfl, _⟩ := splitAtDegree?_eq_some hb
      rw [List.append_assoc] at distinct
      exact ih (drop distinct)
  | case2 before x after left y right hb notLess ih =>
      obtain ⟨rfl, _⟩ := splitAtDegree?_eq_some hb
      rw [List.append_assoc] at distinct ih
      exact ih (drop distinct)
  | case3 before x after hb left y right ha less ih =>
      obtain ⟨rfl, _⟩ := splitAtDegree?_eq_some ha
      rw [← List.append_assoc] at distinct
      exact ih (drop distinct)
  | case4 before x after hb left y right ha notLess ih =>
      obtain ⟨rfl, _⟩ := splitAtDegree?_eq_some ha
      rw [← List.append_assoc] at distinct ih
      exact ih (drop distinct)
  | case5 before x after hb ha =>
      rw [(List.perm_middle.map degree).nodup_iff, List.map_cons, List.nodup_cons]
      refine ⟨fun used => ?_, distinct⟩
      obtain ⟨t, ht, same⟩ := List.mem_map.mp used
      exact degree_ne_of_splitAtDegree? hb ha t ht same

/-- Consolidation leaves roots of different degrees. -/
theorem consolidate_nodup (ring : List (Tree κ α)) : ((consolidate ring).map degree).Nodup := by
  have step : ∀ settled : List (Tree κ α),
      (settled.map degree).Nodup
      → ((ring.foldl (fun settled x => settle settled x []) settled).map degree).Nodup := by
    induction ring with
    | nil => exact fun settled distinct => distinct
    | cons x ring ih =>
        exact fun settled distinct => ih _ (settle_nodup (by rwa [List.append_nil]))
  exact step [] List.nodup_nil

-----------------------------------------------------------------------------------------
-- The least root
-----------------------------------------------------------------------------------------

/-- The least root is one of the roots. -/
theorem leastOf_mem (t : Tree κ α) (ts : List (Tree κ α)) : leastOf t ts ∈ t :: ts := by
  induction ts generalizing t with
  | nil => simp [leastOf]
  | cons s ts ih =>
      have found := ih (if precedes s t then s else t)
      rw [leastOf]
      grind

/-- No root has a smaller key than the least one, by induction over the other roots. -/
theorem leastOf_key_le (t : Tree κ α) (ts : List (Tree κ α))
    : ∀ s ∈ t :: ts, (leastOf t ts).key ≤ s.key := by
  induction ts generalizing t with
  | nil => simp [leastOf]
  | cons u ts ih =>
      have bound := ih (if precedes u t then u else t)
      have first := bound _ (by simp : (if precedes u t then u else t) ∈ _)
      have smaller : (if precedes u t then u else t).key ≤ u.key
          ∧ (if precedes u t then u else t).key ≤ t.key := by
        simp only [precedes, decide_eq_true_eq]
        split
        · rename_i before
          rcases before with before | ⟨before, _⟩
          · exact ⟨le_rfl, le_of_lt before⟩
          · exact ⟨le_rfl, not_lt.mp before⟩
        · rename_i after
          exact ⟨not_lt.mp fun before => after (.inl before), le_rfl⟩
      intro s hs
      rw [leastOf]
      rcases List.mem_cons.mp hs with rfl | hs
      · exact le_trans first smaller.2
      · rcases List.mem_cons.mp hs with rfl | hs
        · exact le_trans first smaller.1
        · exact bound s (List.mem_cons_of_mem _ hs)

theorem startAtLeast_perm (ring : List (Tree κ α)) : (startAtLeast ring).Perm ring := by
  cases ring with
  | nil => exact .rfl
  | cons t ts => exact startAt_perm _ _

/-- A ring that is read from its least root on begins with a least key, provided that no two of
its roots have the same handle.
-/
theorem startAtLeast_least {ring : List (Tree κ α)} (distinct : (ring.map Tree.handle).Nodup)
    : ∀ first ∈ (startAtLeast ring).head?, ∀ t ∈ startAtLeast ring, first.key ≤ t.key := by
  cases ring with
  | nil => simp [startAtLeast]
  | cons s ring =>
      intro first hf t ht
      rw [startAtLeast, head?_startAt (leastOf_mem s ring) distinct] at hf
      cases hf
      exact leastOf_key_le s ring t ((startAtLeast_perm (s :: ring)).mem_iff.mp ht)

end Wayfinding.FibonacciHeap
