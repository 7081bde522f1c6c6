import Mathlib.Data.List.ReduceOption
import Mathlib.Data.Prod.Lex
import Wayfinding.Proofs.Heap.Merging
import Wayfinding.Proofs.Heap.Plantings

/-! Merging the roots in slots is merging their trees. The table finds the tree of a degree among
those that have been settled, and read from its start on it shows the least of them first.
-/

namespace Wayfinding.Slots

open FibonacciHeap Wayfinding.Tree

variable {κ α : Type} {s : Slots κ α} {table : List (Option Nat)} {ts us : List (Tree κ α)}
  {t x y : Tree κ α} {d : Nat} {extra : List (Vertex κ α)}

-----------------------------------------------------------------------------------------
-- The table of degrees
-----------------------------------------------------------------------------------------

/-- The table has the trees at their degrees, and nothing else. -/
def Indexes (table : List (Option Nat)) (ts : List (Tree κ α)) : Prop :=
  ∀ d handle, table[d]? = some (some handle) ↔ ∃ t ∈ ts, t.handle = handle ∧ t.degree = d

theorem Indexes.perm (indexes : Indexes table ts) (perm : ts.Perm us) : Indexes table us := by
  intro d handle
  simp only [indexes d handle, perm.mem_iff]

theorem indexes_cleared (table : List (Option Nat))
    : Indexes (table.map fun _ => none) ([] : List (Tree κ α)) := by
  intro d handle
  rw [List.getElem?_map]
  cases table[d]? <;> simp

/-- Trees with different handles in one table have different degrees. -/
theorem Indexes.degree_ne (indexes : Indexes table (y :: ts))
    (distinct : ((y :: ts).map handle).Nodup) (ht : t ∈ ts)
    : t.degree ≠ y.degree := by
  intro same
  have first := (indexes y.degree y.handle).mpr ⟨y, by simp, rfl, rfl⟩
  have second := (indexes y.degree t.handle).mpr ⟨t, by simp [ht], rfl, same⟩
  have handles : y.handle = t.handle := Option.some.inj (Option.some.inj (first.symm.trans second))
  exact (List.nodup_cons.mp distinct).1 (handles ▸ List.mem_map_of_mem ht)

/-- A tree that is taken out of the table leaves the others. -/
theorem Indexes.remove (indexes : Indexes table (y :: ts))
    (distinct : ((y :: ts).map handle).Nodup)
    : Indexes (table.set y.degree none) ts := by
  intro d handle
  rw [List.getElem?_set]
  split
  · rename_i same
    subst same
    constructor
    · intro found
      split at found <;> simp at found
    · intro found
      obtain ⟨t, ht, _, degree⟩ := found
      exact absurd degree (indexes.degree_ne distinct ht)
  · rename_i differ
    rw [indexes]
    constructor
    · intro found
      obtain ⟨t, ht, named, degree⟩ := found
      rcases List.mem_cons.mp ht with rfl | later
      · exact absurd degree differ
      · exact ⟨t, later, named, degree⟩
    · intro found
      obtain ⟨t, ht, named, degree⟩ := found
      exact ⟨t, List.mem_cons_of_mem y ht, named, degree⟩

/-- A tree of a new degree is entered in the table, which grows if need be. -/
theorem Indexes.enter (indexes : Indexes table ts) (fresh : ∀ t ∈ ts, t.degree ≠ x.degree)
    : Indexes ((table.rightpad (x.degree + 1) none).set x.degree (some x.handle)) (x :: ts) := by
  have padded : ∀ d handle : Nat, (table.rightpad (x.degree + 1) none)[d]? = some (some handle)
      ↔ table[d]? = some (some handle) := by
    intro d handle
    rw [List.rightpad, List.getElem?_append]
    split
    · rfl
    · rename_i beyond
      rw [List.getElem?_eq_none (Nat.not_lt.mp beyond), List.getElem?_replicate]
      split <;> simp
  intro d handle
  rw [List.getElem?_set]
  split
  · rename_i same
    subst same
    rw [if_pos (by simp [List.rightpad]; omega)]
    constructor
    · intro found
      exact ⟨x, by simp, Option.some.inj (Option.some.inj found), rfl⟩
    · intro found
      obtain ⟨t, ht, named, degree⟩ := found
      rcases List.mem_cons.mp ht with rfl | later
      · rw [named]
      · exact absurd degree (fresh t later)
  · rename_i differ
    rw [padded, indexes]
    constructor
    · intro found
      obtain ⟨t, ht, same⟩ := found
      exact ⟨t, List.mem_cons_of_mem x ht, same⟩
    · intro found
      obtain ⟨t, ht, named, degree⟩ := found
      rcases List.mem_cons.mp ht with rfl | later
      · exact absurd degree differ
      · exact ⟨t, later, named, degree⟩

/-- The table lists the trees in the order of their degrees, by induction over the table from the
degree `k` on.
-/
theorem Indexes.exists_sorted {k : Nat}
    (indexes : ∀ d handle, table[d]? = some (some handle)
      ↔ ∃ t ∈ ts, t.handle = handle ∧ t.degree = k + d)
    (distinct : ∀ t ∈ ts, ∀ u ∈ ts, t.handle = u.handle → t = u)
    : ∃ us : List (Tree κ α),
        us.map handle = table.reduceOption
        ∧ us.Pairwise (fun t u => t.degree < u.degree)
        ∧ ∀ t, t ∈ us ↔ t ∈ ts ∧ k ≤ t.degree := by
  induction table generalizing k with
  | nil =>
      refine ⟨[], rfl, .nil, fun t => ?_⟩
      rw [iff_comm, iff_false_right List.not_mem_nil, not_and, not_le]
      intro ht
      by_contra high
      have found := (indexes (t.degree - k) t.handle).mpr ⟨t, ht, rfl, by omega⟩
      simp at found
  | cons o table ih =>
      have later : ∀ d handle, table[d]? = some (some handle)
          ↔ ∃ t ∈ ts, t.handle = handle ∧ t.degree = k + 1 + d := by
        intro d handle
        have shifted := indexes (d + 1) handle
        rw [List.getElem?_cons_succ] at shifted
        rw [shifted, show k + (d + 1) = k + 1 + d by omega]
      obtain ⟨us, handles, sorted, members⟩ := ih later
      cases o with
      | none =>
          refine ⟨us, by rwa [List.reduceOption_cons_of_none], sorted, fun t => ?_⟩
          rw [members]
          refine and_congr_right fun ht => ⟨fun high => by omega, fun high => ?_⟩
          rcases Nat.lt_or_eq_of_le high with above | same
          · exact above
          · have found := (indexes 0 t.handle).mpr ⟨t, ht, rfl, same.symm⟩
            simp at found
      | some handle =>
          obtain ⟨t, ht, rfl, degree⟩ := (indexes 0 handle).mp rfl
          refine ⟨t :: us, by rw [List.reduceOption_cons_of_some, List.map_cons, handles], ?_, fun u => ?_⟩
          · refine List.pairwise_cons.mpr ⟨fun u hu => ?_, sorted⟩
            have above := ((members u).mp hu).2
            omega
          · rw [List.mem_cons, members]
            constructor
            · intro h
              rcases h with rfl | ⟨hu, above⟩
              · exact ⟨ht, by omega⟩
              · exact ⟨hu, by omega⟩
            · intro h
              obtain ⟨hu, high⟩ := h
              rcases Nat.lt_or_eq_of_le high with above | same
              · exact Or.inr ⟨hu, above⟩
              · have found := (indexes 0 u.handle).mpr ⟨u, hu, rfl, same.symm⟩
                simp only [List.getElem?_cons_zero, Option.some.injEq] at found
                exact Or.inl (distinct u hu t ht found.symm)

-----------------------------------------------------------------------------------------
-- Settling roots
-----------------------------------------------------------------------------------------

variable [LinearOrder κ]

/-- A root that meets one of its degree is linked to it, the greater key below the other. -/
private theorem settle_of_found {a b : Slot κ α} {i j : Nat} (found : table[d]? = some (some j))
    (first : s.slot? i = some a) (second : s.slot? j = some b)
    : s.settle table i d
      = if b.key < a.key then (s.link i j).bind fun s => s.settle (table.set d none) j (d + 1)
        else (s.link j i).bind fun s => s.settle (table.set d none) i (d + 1) := by
  rw [settle]
  split
  · rename_i k taken
    obtain rfl : j = k := Option.some.inj (Option.some.inj (found.symm.trans taken))
    simp only [first, second, Option.bind_eq_bind, Option.bind_some]
  · rename_i missing
    exact absurd found (missing j)

/-- A root that meets none of its degree is entered in the table. -/
private theorem settle_of_missing {i : Nat} (missing : ∀ j, table[d]? ≠ some (some j))
    : s.settle table i d = some (s, (table.rightpad (d + 1) none).set d (some i)) := by
  rw [settle]
  split
  · rename_i j taken
    exact absurd taken (missing j)
  · rfl

/-- One merge: of `x` and the settled `y` of its degree the one with the greater key, `c`, is linked
to the other one, `t`.
-/
private theorem Stores.merge {l r l' r' others : List (Tree κ α)} {c t : Tree κ α}
    (stores : s.Stores (l ++ c :: r) extra) (split : l ++ r = l' ++ t :: r')
    (which : y.key < x.key ∧ c = x ∧ t = y ∨ ¬ y.key < x.key ∧ c = y ∧ t = x)
    (indexes : Indexes table ts) (distinct : (ts.map handle).Nodup) (perm : ts.Perm (y :: others))
    (same : y.degree = x.degree)
    : ∃ s' : Slots κ α,
        s.settle table x.handle x.degree
            = s'.settle (table.set x.degree none) (t.adopt c).handle (t.adopt c).degree
        ∧ s'.size = s.size
        ∧ s'.Stores (l' ++ t.adopt c :: r') extra
        ∧ Indexes (table.set x.degree none) others
        ∧ (others.map handle).Nodup := by
  have memberC : c ∈ l ++ c :: r := by simp
  have memberT : t ∈ l ++ c :: r :=
    List.perm_middle.mem_iff.mpr (List.mem_cons_of_mem c (by simp [split]))
  have members : x ∈ l ++ c :: r ∧ y ∈ l ++ c :: r := by
    rcases which with ⟨_, rfl, rfl⟩ | ⟨_, rfl, rfl⟩
    · exact ⟨memberC, memberT⟩
    · exact ⟨memberT, memberC⟩
  obtain ⟨a, slotX, sameX⟩ := stores.exists_slot? members.1
  obtain ⟨b, slotY, sameY⟩ := stores.exists_slot? members.2
  have keyX : a.key = x.key := congrArg Content.key sameX
  have keyY : b.key = y.key := congrArg Content.key sameY
  have found : table[x.degree]? = some (some y.handle) :=
    (indexes _ _).mpr ⟨y, perm.mem_iff.mpr List.mem_cons_self, rfl, same⟩
  have unique := (perm.map handle).nodup_iff.mp distinct
  have removed := (indexes.perm perm).remove unique
  obtain ⟨s', linked, size, stored⟩ := stores.link split
  refine ⟨s', ?_, size, stored, same ▸ removed, unique.of_cons⟩
  rw [settle_of_found found slotX slotY, keyX, keyY, handle_adopt, degree_adopt]
  rcases which with ⟨less, rfl, rfl⟩ | ⟨notLess, rfl, rfl⟩
  · rw [if_pos less, linked, Option.bind_some, same]
  · rw [if_neg notLess, linked, Option.bind_some]

/-- Settling a root in slots settles its tree, by induction over the merges. The roots that are
still to come, `rest`, stay as they are.
-/
theorem Stores.settle {before after rest : List (Tree κ α)}
    (stores : s.Stores (before ++ x :: after ++ rest) extra)
    (indexes : Indexes table (before ++ after))
    : ∃ s' table',
        s.settle table x.handle x.degree = some (s', table')
        ∧ s'.size = s.size
        ∧ s'.Stores (FibonacciHeap.settle before x after ++ rest) extra
        ∧ Indexes table' (FibonacciHeap.settle before x after) := by
  have distinct : ((before ++ after).map handle).Nodup := by
    refine stores.nodup.sublist (List.Sublist.map handle ?_)
    rw [List.append_assoc]
    exact ((List.sublist_append_left after rest).cons x).append_left before
  -- The root of the same degree stands before `x` in the first two cases and behind it in the next
  -- two, and has the smaller key in the first of each.
  fun_induction FibonacciHeap.settle before x after generalizing s table with
  | case1 before x after left y right hb less ih =>
      obtain ⟨rfl, same⟩ := splitAtDegree?_eq_some hb
      have whole : s.Stores ((left ++ y :: right) ++ x :: (after ++ rest)) extra := by
        simpa using stores
      have split : (left ++ y :: right) ++ (after ++ rest)
          = left ++ y :: (right ++ after ++ rest) := by simp
      have perm : ((left ++ y :: right) ++ after).Perm (y :: (left ++ (right ++ after))) := by
        simp
      obtain ⟨s₁, merged, size₁, stores₁, indexes₁, distinct₁⟩ :=
        whole.merge split (.inl ⟨less, rfl, rfl⟩) indexes distinct perm same
      obtain ⟨s₂, table₂, settled, size₂, stored⟩ := ih (by simpa using stores₁) indexes₁ distinct₁
      exact ⟨s₂, table₂, merged.trans settled, size₂.trans size₁, stored⟩
  | case2 before x after left y right hb notLess ih =>
      obtain ⟨rfl, same⟩ := splitAtDegree?_eq_some hb
      have whole : s.Stores (left ++ y :: (right ++ x :: (after ++ rest))) extra := by
        simpa using stores
      have split : left ++ (right ++ x :: (after ++ rest))
          = (left ++ right) ++ x :: (after ++ rest) := by simp
      have perm : ((left ++ y :: right) ++ after).Perm (y :: (left ++ right ++ after)) := by
        simp
      obtain ⟨s₁, merged, size₁, stores₁, indexes₁, distinct₁⟩ :=
        whole.merge split (.inr ⟨notLess, rfl, rfl⟩) indexes distinct perm same
      obtain ⟨s₂, table₂, settled, size₂, stored⟩ := ih (by simpa using stores₁) indexes₁ distinct₁
      exact ⟨s₂, table₂, merged.trans settled, size₂.trans size₁, stored⟩
  | case3 before x after hb left y right ha less ih =>
      obtain ⟨rfl, same⟩ := splitAtDegree?_eq_some ha
      have whole : s.Stores (before ++ x :: (left ++ y :: right ++ rest)) extra := by
        simpa using stores
      have split : before ++ (left ++ y :: right ++ rest)
          = (before ++ left) ++ y :: (right ++ rest) := by simp
      have perm : (before ++ (left ++ y :: right)).Perm (y :: (before ++ left ++ right)) := by
        rw [← List.append_assoc]
        exact List.perm_middle
      obtain ⟨s₁, merged, size₁, stores₁, indexes₁, distinct₁⟩ :=
        whole.merge split (.inl ⟨less, rfl, rfl⟩) indexes distinct perm same
      obtain ⟨s₂, table₂, settled, size₂, stored⟩ := ih (by simpa using stores₁) indexes₁ distinct₁
      exact ⟨s₂, table₂, merged.trans settled, size₂.trans size₁, stored⟩
  | case4 before x after hb left y right ha notLess ih =>
      obtain ⟨rfl, same⟩ := splitAtDegree?_eq_some ha
      have whole : s.Stores ((before ++ x :: left) ++ y :: (right ++ rest)) extra := by
        simpa using stores
      have split : (before ++ x :: left) ++ (right ++ rest)
          = before ++ x :: (left ++ right ++ rest) := by simp
      have perm : (before ++ (left ++ y :: right)).Perm (y :: (before ++ (left ++ right))) := by
        rw [← List.append_assoc, ← List.append_assoc]
        exact List.perm_middle
      obtain ⟨s₁, merged, size₁, stores₁, indexes₁, distinct₁⟩ :=
        whole.merge split (.inr ⟨notLess, rfl, rfl⟩) indexes distinct perm same
      obtain ⟨s₂, table₂, settled, size₂, stored⟩ := ih (by simpa using stores₁) indexes₁ distinct₁
      exact ⟨s₂, table₂, merged.trans settled, size₂.trans size₁, stored⟩
  | case5 before x after hb ha =>
      have fresh := degree_ne_of_splitAtDegree? hb ha
      have missing : ∀ j, table[x.degree]? ≠ some (some j) := by
        intro j taken
        obtain ⟨t, ht, _, degree⟩ := (indexes _ _).mp taken
        exact fresh t ht degree
      exact ⟨s, _, settle_of_missing missing, rfl, stores,
        (indexes.enter fresh).perm List.perm_middle.symm⟩

/-- Settling roots one after the other settles their trees, by induction over the roots. -/
theorem Stores.settleAll {settled rest : List (Tree κ α)}
    (stores : s.Stores (settled ++ rest) extra) (indexes : Indexes table settled)
    : ∃ s' table',
        settleAll (rest.map handle) (s, table) = some (s', table')
        ∧ s'.size = s.size
        ∧ s'.Stores (rest.foldl (fun settled x => FibonacciHeap.settle settled x []) settled) extra
        ∧ Indexes table' (rest.foldl (fun settled x => FibonacciHeap.settle settled x []) settled)
    := by
  induction rest generalizing s table settled with
  | nil => exact ⟨s, table, rfl, rfl, by simpa using stores, indexes⟩
  | cons x rest ih =>
      obtain ⟨a, slotX, sameX⟩ := stores.exists_slot? (t := x) (by simp)
      have degree : a.degree = x.degree := by
        rw [sameX]
        simp [Vertex.content, vertex, Tree.degree]
      have next : s.Stores (settled ++ x :: [] ++ rest) extra := by simpa using stores
      obtain ⟨s₁, table₁, placed, size₁, stores₁, indexes₁⟩ :=
        next.settle (by simpa using indexes)
      obtain ⟨s₂, table₂, others, size₂, stored⟩ := ih stores₁ indexes₁
      refine ⟨s₂, table₂, ?_, size₂.trans size₁, stored⟩
      simp only [List.map_cons, Slots.settleAll, slotX, degree, placed, others,
        Option.bind_eq_bind, Option.bind_some]

-----------------------------------------------------------------------------------------
-- The least root
-----------------------------------------------------------------------------------------

/-- Roots compare by their keys and then by their degrees. -/
def rank (t : Tree κ α) : κ ×ₗ Nat :=
  toLex (t.key, t.degree)

theorem precedes_iff : precedes t x = true ↔ rank t < rank x := by
  rw [precedes, decide_eq_true_eq, rank, rank, Prod.Lex.toLex_lt_toLex]
  refine or_congr_right' fun notLess => and_congr_left' ?_
  rw [not_lt]
  exact ⟨fun le => le_antisymm le (not_lt.mp notLess), Eq.le⟩

/-- The least root has the least rank, by induction over the others. -/
theorem rank_leastOf_le (t : Tree κ α) (ts : List (Tree κ α))
    : ∀ u ∈ t :: ts, rank (leastOf t ts) ≤ rank u := by
  induction ts generalizing t with
  | nil => simp [leastOf]
  | cons x ts ih =>
      intro u hu
      rw [leastOf]
      split
      · rename_i less
        have first := ih x x List.mem_cons_self
        rcases List.mem_cons.mp hu with rfl | later
        · exact first.trans (precedes_iff.mp less).le
        · exact ih x u later
      · rename_i notLess
        have first := ih t t List.mem_cons_self
        rw [precedes_iff, not_lt] at notLess
        rcases List.mem_cons.mp hu with rfl | later
        · exact first
        · rcases List.mem_cons.mp later with rfl | later
          · exact first.trans notLess
          · exact ih t u (List.mem_cons_of_mem t later)

/-- Of roots in the order of their degrees the first with the least key has the least rank, by
induction over them.
-/
private theorem Stores.exists_leastOf? (stores : s.Stores ts extra)
    (members : ∀ u ∈ t :: us, u ∈ ts) (sorted : (t :: us).Pairwise fun u v => u.degree < v.degree)
    : ∃ m ∈ t :: us,
        s.leastOf? (some t.handle) (us.map handle) = some (some m.handle)
        ∧ ∀ u ∈ t :: us, rank m ≤ rank u := by
  induction us generalizing t with
  | nil => exact ⟨t, by simp, rfl, by simp⟩
  | cons x us ih =>
      obtain ⟨above, sortedX⟩ := List.pairwise_cons.mp sorted
      obtain ⟨aboveX, sortedUs⟩ := List.pairwise_cons.mp sortedX
      obtain ⟨a, slotT, sameT⟩ := stores.exists_slot? (members t (by simp))
      obtain ⟨b, slotX, sameX⟩ := stores.exists_slot? (members x (by simp))
      have keyT : a.key = t.key := congrArg Content.key sameT
      have keyX : b.key = x.key := congrArg Content.key sameX
      by_cases less : x.key < t.key
      · obtain ⟨m, hm, found, least⟩ :=
          ih (fun u hu => members u (List.mem_cons_of_mem t hu)) sortedX
        refine ⟨m, List.mem_cons_of_mem t hm, ?_, fun u hu => ?_⟩
        · simp only [List.map_cons, Slots.leastOf?, slotT, slotX, keyT, keyX, less, if_true, found,
            Option.bind_eq_bind, Option.bind_some]
        · rcases List.mem_cons.mp hu with rfl | later
          · have before : rank x ≤ rank u := (Prod.Lex.toLex_lt_toLex.mpr (.inl less)).le
            exact (least x (by simp)).trans before
          · exact least u later
      · obtain ⟨m, hm, found, least⟩ := ih (t := t)
          (fun u hu => members u (by rcases List.mem_cons.mp hu with rfl | h <;> simp [*]))
          (List.pairwise_cons.mpr ⟨fun u hu => above u (List.mem_cons_of_mem x hu), sortedUs⟩)
        refine ⟨m, ?_, ?_, fun u hu => ?_⟩
        · rcases List.mem_cons.mp hm with rfl | later <;> simp [*]
        · simp only [List.map_cons, Slots.leastOf?, slotT, slotX, keyT, keyX, less, if_false, found,
            Option.bind_eq_bind, Option.bind_some]
        · have first := least t (by simp)
          rcases List.mem_cons.mp hu with rfl | later
          · exact first
          · rcases List.mem_cons.mp later with rfl | later
            · refine first.trans (Prod.Lex.toLex_le_toLex.mpr ?_)
              rcases lt_or_eq_of_le (not_lt.mp less) with smaller | same
              · exact .inl smaller
              · exact .inr ⟨same, (above u (by simp)).le⟩
            · exact least u (List.mem_cons_of_mem t later)

/-- The table shows the root from which on the ring is read. -/
theorem Stores.leastOf? (stores : s.Stores ts extra) (indexes : Indexes table ts)
    : s.leastOf? none table.reduceOption = some ((startAtLeast ts).head?.map handle) := by
  have distinct : ∀ t ∈ ts, ∀ u ∈ ts, t.handle = u.handle → t = u := fun t ht u hu same =>
    List.inj_on_of_nodup_map stores.nodup ht hu same
  obtain ⟨us, handles, sorted, members⟩ :=
    Indexes.exists_sorted (k := 0) (fun d handle => by simpa using indexes d handle) distinct
  have same : ∀ t, t ∈ us ↔ t ∈ ts := fun t => by simp [members]
  rw [← handles]
  cases ts with
  | nil =>
      have nothing : us = [] := List.eq_nil_iff_forall_not_mem.mpr fun t ht => by
        simpa using (same t).mp ht
      subst nothing
      rfl
  | cons t ts =>
      cases us with
      | nil => exact absurd ((same t).mpr (by simp)) (by simp)
      | cons u us =>
          obtain ⟨m, hm, found, least⟩ :=
            stores.exists_leastOf? (fun v hv => (same v).mp hv) sorted
          have first := leastOf_mem t ts
          have equal : rank m = rank (leastOf t ts) :=
            le_antisymm (least _ ((same _).mpr first)) (rank_leastOf_le t ts m ((same m).mp hm))
          have degree : m.degree = (leastOf t ts).degree := congrArg (fun r => (ofLex r).2) equal
          have handles : m.handle = (leastOf t ts).handle := by
            have taken := (indexes _ _).mpr ⟨m, (same m).mp hm, rfl, rfl⟩
            rw [degree, (indexes _ _).mpr ⟨_, first, rfl, rfl⟩] at taken
            exact (Option.some.inj (Option.some.inj taken)).symm
          rw [startAtLeast, head?_startAt first stores.nodup, Option.map_some, ← handles]
          exact found

omit [LinearOrder κ] in
/-- The ring may be read from a root on. -/
theorem Stores.startAt (stores : s.Stores ts extra) (handle : Nat)
    : s.Stores (startAt handle ts) extra := by
  rw [FibonacciHeap.startAt]
  refine Stores.rotate ?_
  rw [List.takeWhile_append_dropWhile]
  exact stores

/-- The ring may be read from its least root on. -/
theorem Stores.startAtLeast (stores : s.Stores ts extra) : s.Stores (startAtLeast ts) extra := by
  cases ts with
  | nil => exact stores
  | cons t ts => exact stores.startAt _

end Wayfinding.Slots
