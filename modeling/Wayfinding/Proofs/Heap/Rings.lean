import Mathlib.Data.List.Chain
import Mathlib.Data.List.Nodup
import Mathlib.Data.List.Perm.Subperm
import Wayfinding.FibonacciHeap.Slots

/-! Rings of slots whose links to the left undo those to the right. Linking a slot into a ring and
taking one out of it change the links of that ring alone, and reading a ring comes to an end.
-/

namespace Wayfinding.Slots

variable {κ α : Type} {s s' : Slots κ α} {i j n a : Nat} {l r : List Nat} {p : Option Nat}

-----------------------------------------------------------------------------------------
-- Reading and editing slots
-----------------------------------------------------------------------------------------

/-- What a slot holds. -/
def content? (s : Slots κ α) (i : Nat) : Option (Content κ α) :=
  (s.slot? i).map Slot.toContent

/-- How a slot is linked to others. -/
def links? (s : Slots κ α) (i : Nat) : Option Links :=
  (s.slot? i).map Slot.toLinks

/-- The link of a slot to its parent. -/
def parent? (s : Slots κ α) (i : Nat) : Option (Option Nat) :=
  (s.links? i).map Links.parent

/-- The link of a slot to the left. -/
def left? (s : Slots κ α) (i : Nat) : Option Nat :=
  (s.links? i).map Links.left

/-- The link of a slot to the right. -/
def right? (s : Slots κ α) (i : Nat) : Option Nat :=
  (s.links? i).map Links.right

theorem slot?_isSome : (s.slot? i).isSome ↔ i < s.size := by
  simp [slot?, size]

theorem exists_slot? (inside : i < s.size) : ∃ t, s.slot? i = some t :=
  Option.isSome_iff_exists.mp (slot?_isSome.mpr inside)

theorem lt_of_links? {t : Links} (h : s.links? i = some t) : i < s.size := by
  obtain ⟨t, found, _⟩ := Option.map_eq_some_iff.mp h
  exact slot?_isSome.mp (by simp [found])

theorem lt_of_parent? (h : s.parent? i = some p) : i < s.size := by
  obtain ⟨t, found, _⟩ := Option.map_eq_some_iff.mp h
  exact lt_of_links? found

/-- Editing a slot that is there changes this slot alone. -/
theorem exists_edit (inside : i < s.size) (f : Slot κ α → Slot κ α)
    : ∃ s',
        s.edit i f = some s'
        ∧ s'.size = s.size
        ∧ ∀ j, s'.slot? j = if i = j then (s.slot? j).map f else s.slot? j := by
  refine ⟨⟨s.cells.modify i f⟩, by rw [edit, if_pos inside], Array.size_modify, fun j => ?_⟩
  rw [slot?, Array.getElem?_modify]
  rfl

/-- The slots differ in the links between neighbours alone, and only in those of listed slots. -/
structure Relinks (s s' : Slots κ α) (changed : List Nat) : Prop where
  size : s'.size = s.size
  content : ∀ j, s'.content? j = s.content? j
  parent : ∀ j, s'.parent? j = s.parent? j
  links : ∀ j, j ∉ changed → s'.links? j = s.links? j

/-- The slots differ in the links between neighbours alone, each of which is a function of what it
was before.
-/
structure Rewires (s s' : Slots κ α) (left right : Nat → Nat → Nat) : Prop where
  size : s'.size = s.size
  slots : ∀ j, s'.slot? j
    = (s.slot? j).map fun t => { t with left := left j t.left, right := right j t.right }

section

variable {left right : Nat → Nat → Nat}

theorem Rewires.left? (rewires : s.Rewires s' left right) (j : Nat)
    : s'.left? j = (s.left? j).map (left j) := by
  simp [Slots.left?, links?, rewires.slots, Function.comp_def]

theorem Rewires.right? (rewires : s.Rewires s' left right) (j : Nat)
    : s'.right? j = (s.right? j).map (right j) := by
  simp [Slots.right?, links?, rewires.slots, Function.comp_def]

theorem Rewires.relinks (rewires : s.Rewires s' left right) {changed : List Nat}
    (same : ∀ j, j ∉ changed → ∀ v, left j v = v ∧ right j v = v)
    : s.Relinks s' changed := by
  refine ⟨rewires.size, ?_, ?_, ?_⟩
  · intro j
    simp [content?, rewires.slots, Function.comp_def]
  · intro j
    simp [parent?, links?, rewires.slots, Function.comp_def]
  · intro j hj
    simp [links?, rewires.slots, same j hj]

end

-----------------------------------------------------------------------------------------
-- Rings
-----------------------------------------------------------------------------------------

/-- Two slots are neighbours, the second one on the right. -/
def Joined (s : Slots κ α) (i j : Nat) : Prop :=
  s.right? i = some j ∧ s.left? j = some i

/-- The listed slots have this parent and form a ring, in their order to the right. -/
structure Ring (s : Slots κ α) (parent : Option Nat) (l : List Nat) : Prop where
  distinct : l.Nodup
  parents : ∀ i ∈ l, s.parent? i = some parent
  joined : ∀ first ∈ l.head?, (l ++ [first]).IsChain s.Joined

theorem ring_nil : s.Ring p [] :=
  ⟨List.nodup_nil, by simp, by simp⟩

/-- Only the links of the ring itself matter. -/
theorem Ring.congr (ring : s.Ring p l) (same : ∀ i ∈ l, s'.links? i = s.links? i)
    : s'.Ring p l := by
  refine ⟨ring.distinct, ?_, ?_⟩
  · intro i hi
    rw [parent?, same i hi]
    exact ring.parents i hi
  · intro first hf
    have closed {i : Nat} (hi : i ∈ l ++ [first]) : i ∈ l := by
      rcases List.mem_append.mp hi with inside | last
      · exact inside
      · rw [List.mem_singleton.mp last]
        exact List.mem_of_mem_head? hf
    refine (ring.joined first hf).imp_of_mem_imp fun i j hi hj joined => ?_
    rw [Joined, right?, left?, same i (closed hi), same j (closed hj)]
    exact joined

theorem Ring.relinks {changed : List Nat} (ring : s.Ring p l) (relinks : s.Relinks s' changed)
    (apart : ∀ i ∈ l, i ∉ changed)
    : s'.Ring p l :=
  ring.congr fun i hi => relinks.links i (apart i hi)

/-- Rings below different parents have no slot in common. -/
theorem Ring.apart {q : Option Nat} (ring : s.Ring p l) (other : s.Ring q r) (differ : p ≠ q)
    : ∀ i ∈ l, i ∉ r := by
  intro i hi hr
  have same := (ring.parents i hi).symm.trans (other.parents i hr)
  exact differ (Option.some.inj same)

/-- A ring may be read from any of its slots on. -/
theorem Ring.rotate (ring : s.Ring p (l ++ r)) : s.Ring p (r ++ l) := by
  cases l with
  | nil => simpa using ring
  | cons c l =>
      cases r with
      | nil => simpa using ring
      | cons b r =>
          refine ⟨List.nodup_append_comm.mp ring.distinct, ?_, ?_⟩
          · exact fun i hi => ring.parents i (List.perm_append_comm.mem_iff.mp hi)
          · intro first hf
            cases hf
            have joined : ((c :: l) ++ b :: (r ++ [c])).IsChain s.Joined := by
              simpa only [List.append_assoc, List.cons_append] using ring.joined c rfl
            obtain ⟨front, back⟩ := List.isChain_split.mp joined
            have turned : ((b :: r) ++ c :: (l ++ [b])).IsChain s.Joined :=
              List.isChain_split.mpr ⟨back, front⟩
            simpa only [List.append_assoc, List.cons_append] using turned

/-- The first slot of a ring, the last one and how they are linked. -/
theorem Ring.exists_last (ring : s.Ring p (a :: l))
    : ∃ k z, a :: l = k ++ [z] ∧ (k ++ [z]).IsChain s.Joined ∧ s.Joined z a := by
  refine ⟨(a :: l).dropLast, (a :: l).getLast (List.cons_ne_nil a l),
    (List.dropLast_append_getLast _).symm, ?_⟩
  have joined := ring.joined a rfl
  rw [← List.dropLast_append_getLast (List.cons_ne_nil a l), List.append_assoc,
    List.singleton_append, List.isChain_append_cons_cons] at joined
  exact ⟨joined.1, joined.2.1⟩

/-- To the right of the first slot of a ring is the second one, or the first one again. -/
theorem Ring.right?_first (ring : s.Ring p (a :: l)) : s.right? a = some (l.headD a) := by
  have joined := ring.joined a rfl
  cases l with
  | nil => exact (List.isChain_pair.mp joined).1
  | cons b l => exact (List.isChain_cons_cons.mp joined).1.1

/-- A row of neighbours stays one if no link to the right changes but that of the last slot, and no
link to the left but that of the first.
-/
private theorem isChain_joined_congr {z : Nat} (chain : (a :: l).IsChain s.Joined)
    (last : s.right? z = some n) (outside : n ∉ l) (first : a ∉ l)
    (right : ∀ i ∈ a :: l, i ≠ z → s'.right? i = s.right? i)
    (left : ∀ i ∈ a :: l, i ≠ a → s'.left? i = s.left? i)
    : (a :: l).IsChain s'.Joined := by
  refine chain.imp_of_mem_tail_imp fun i j hi hj joined => ?_
  -- The slot `z` leads to `n`, which does not follow in the row, so it has no next one there.
  have inner : i ≠ z := by
    intro same
    subst same
    obtain rfl := Option.some.inj (joined.1.symm.trans last)
    exact outside hj
  have later : j ≠ a := fun same => first (same ▸ hj)
  exact ⟨(right i hi inner).trans joined.1,
    (left j (List.mem_cons_of_mem a hj) later).trans joined.2⟩

-----------------------------------------------------------------------------------------
-- Linking into a ring
-----------------------------------------------------------------------------------------

/-- Splicing puts the slot `n` between the anchor and the slot on the anchor's left. -/
theorem exists_splice {z : Nat} (anchor : s.left? a = some z) (insideN : n < s.size)
    (insideZ : z < s.size) (differA : n ≠ a) (differZ : n ≠ z)
    : ∃ s',
        s.splice a n = some s'
        ∧ s.Rewires s' (fun j v => if a = j then n else if n = j then z else v)
            fun j v => if z = j then n else if n = j then a else v := by
  obtain ⟨t, found, left⟩ : ∃ t, s.slot? a = some t ∧ t.left = z := by
    simpa [left?, links?] using anchor
  have insideA : a < s.size := slot?_isSome.mp (by simp [found])
  obtain ⟨s₁, edit₁, size₁, slots₁⟩ :=
    exists_edit insideN fun u : Slot κ α => { u with left := z, right := a }
  obtain ⟨s₂, edit₂, size₂, slots₂⟩ :=
    exists_edit (s := s₁) (i := z) (by omega) fun u : Slot κ α => { u with right := n }
  obtain ⟨s₃, edit₃, size₃, slots₃⟩ :=
    exists_edit (s := s₂) (i := a) (by omega) fun u : Slot κ α => { u with left := n }
  refine ⟨s₃, ?_, by omega, fun j => ?_⟩
  · simp [splice, found, left, edit₁, edit₂, edit₃]
  · rw [slots₃, slots₂, slots₁]
    by_cases sameA : a = j <;> by_cases sameZ : z = j <;> by_cases sameN : n = j <;>
      simp_all [Function.comp_def]

/-- Splicing a slot into a ring makes it the last one, seen from the anchor. -/
theorem Ring.splice (ring : s.Ring p (a :: l)) (parent : s.parent? n = some p)
    (fresh : n ∉ a :: l)
    : ∃ s',
        s.splice a n = some s'
        ∧ s.Relinks s' (n :: a :: l)
        ∧ s'.Ring p (a :: l ++ [n]) := by
  obtain ⟨k, z, split, chain, back⟩ := ring.exists_last
  have memberA : a ∈ a :: l := List.mem_cons_self
  have memberZ : z ∈ a :: l := by simp [split]
  have differA : n ≠ a := fun same => fresh (same ▸ memberA)
  have differZ : n ≠ z := fun same => fresh (same ▸ memberZ)
  have insideZ := lt_of_parent? (ring.parents z memberZ)
  obtain ⟨s', spliced, rewires⟩ :=
    exists_splice back.2 (lt_of_parent? parent) insideZ differA differZ
  have relinks : s.Relinks s' (n :: a :: l) := by
    refine rewires.relinks fun j hj v => ?_
    rw [List.mem_cons, not_or] at hj
    have otherA : a ≠ j := fun same => hj.2 (same ▸ memberA)
    have otherZ : z ≠ j := fun same => hj.2 (same ▸ memberZ)
    simp [otherA, otherZ, Ne.symm hj.1]
  refine ⟨s', spliced, relinks, ?_, ?_, ?_⟩
  · exact List.nodup_append_comm.mp (List.nodup_cons.mpr ⟨fresh, ring.distinct⟩)
  · intro i hi
    rw [relinks.parent]
    rcases List.mem_append.mp hi with old | new
    · exact ring.parents i old
    · rw [List.mem_singleton.mp new]
      exact parent
  · intro first hf
    cases hf
    have row : (k ++ [z]).IsChain s'.Joined := by
      rw [← split] at chain ⊢
      have firstOnly : a ∉ l := (List.nodup_cons.mp ring.distinct).1
      refine isChain_joined_congr chain back.1 firstOnly firstOnly ?_ ?_
      · intro i hi other
        have new : n ≠ i := fun same => fresh (same ▸ hi)
        simp [rewires.right?, Ne.symm other, new]
      · intro i hi other
        have new : n ≠ i := fun same => fresh (same ▸ hi)
        simp [rewires.left?, Ne.symm other, new]
    have forth : s'.Joined z n ∧ s'.Joined n a := by
      obtain ⟨t, found, _⟩ := Option.map_eq_some_iff.mp parent
      have left : s.left? n = some t.left := by simp [left?, found]
      have right : s.right? n = some t.right := by simp [right?, found]
      refine ⟨⟨?_, ?_⟩, ?_, ?_⟩
      · simp [rewires.right?, back.1]
      · simp [rewires.left?, left, Ne.symm differA]
      · simp [rewires.right?, right, Ne.symm differZ]
      · simp [rewires.left?, back.2]
    rw [split, List.append_assoc, List.append_assoc]
    exact List.isChain_append_cons_cons.mpr ⟨row, forth.1, List.isChain_pair.mpr forth.2⟩

-----------------------------------------------------------------------------------------
-- Taking out of a ring
-----------------------------------------------------------------------------------------

/-- Unlinking joins the neighbours of the slot `n`, which becomes its own neighbour. -/
theorem exists_unlink {b z : Nat} (left : s.left? n = some z) (right : s.right? n = some b)
    (insideZ : z < s.size) (insideB : b < s.size)
    : ∃ s',
        s.unlink n = some s'
        ∧ s.Rewires s' (fun j v => if n = j then n else if b = j then z else v)
            fun j v => if n = j then n else if z = j then b else v := by
  obtain ⟨t, found, leftEq⟩ : ∃ t, s.slot? n = some t ∧ t.left = z := by
    simpa [left?, links?] using left
  have rightEq : t.right = b := by simpa [right?, links?, found] using right
  have insideN : n < s.size := slot?_isSome.mp (by simp [found])
  obtain ⟨s₁, edit₁, size₁, slots₁⟩ :=
    exists_edit insideZ fun u : Slot κ α => { u with right := b }
  obtain ⟨s₂, edit₂, size₂, slots₂⟩ :=
    exists_edit (s := s₁) (i := b) (by omega) fun u : Slot κ α => { u with left := z }
  obtain ⟨s₃, edit₃, size₃, slots₃⟩ :=
    exists_edit (s := s₂) (i := n) (by omega) fun u : Slot κ α => { u with left := n, right := n }
  refine ⟨s₃, ?_, by omega, fun j => ?_⟩
  · simp [unlink, found, leftEq, rightEq, edit₁, edit₂, edit₃]
  · rw [slots₃, slots₂, slots₁]
    by_cases sameN : n = j <;> by_cases sameZ : z = j <;> by_cases sameB : b = j <;>
      simp_all [Function.comp_def]

/-- The slots behind the first one close up to a ring once their ends are joined. -/
private theorem Ring.isChain_joined {c z : Nat} {k : List Nat} (ring : s.Ring p (n :: c :: l))
    (split : c :: l = k ++ [z]) (back : s.Joined z n)
    (rewires : s.Rewires s' (fun j v => if n = j then n else if c = j then z else v)
      fun j v => if n = j then n else if z = j then c else v)
    : (c :: l ++ [c]).IsChain s'.Joined := by
  obtain ⟨fresh, distinct⟩ := List.nodup_cons.mp ring.distinct
  obtain ⟨front, chain⟩ := List.isChain_cons_cons.mp (ring.joined n rfl)
  have row : (c :: l).IsChain s'.Joined := by
    refine isChain_joined_congr (List.IsChain.left_of_append chain) back.1
      (fun later => fresh (List.mem_cons_of_mem _ later)) (List.nodup_cons.mp distinct).1 ?_ ?_
    · intro i hi other
      have old : n ≠ i := fun same => fresh (same ▸ hi)
      simp [rewires.right?, old, Ne.symm other]
    · intro i hi other
      have old : n ≠ i := fun same => fresh (same ▸ hi)
      simp [rewires.left?, old, Ne.symm other]
  have closing : s'.Joined z c := by
    have differZ : n ≠ z := fun same => fresh (same ▸ split ▸ by simp)
    have differC : n ≠ c := fun same => fresh (same ▸ List.mem_cons_self)
    refine ⟨?_, ?_⟩
    · simp [rewires.right?, differZ, back.1]
    · simp [rewires.left?, differC, front.2]
  rw [split] at row ⊢
  rw [List.append_assoc]
  exact List.isChain_append_cons_cons.mpr ⟨row, closing, List.isChain_singleton c⟩

/-- A ring without its first slot is a ring. -/
private theorem Ring.unlink_first (ring : s.Ring p (n :: l))
    : ∃ s',
        s.unlink n = some s'
        ∧ s.Relinks s' (n :: l)
        ∧ s'.Ring p l
        ∧ s'.Ring p [n] := by
  -- A slot that is alone in its ring is its own neighbour on both sides.
  obtain ⟨k, z, split, _, back⟩ := ring.exists_last
  have memberZ : z ∈ n :: l := by simp [split]
  have memberB : l.headD n ∈ n :: l := by cases l <;> simp
  obtain ⟨s', unlinked, rewires⟩ := exists_unlink back.2 ring.right?_first
    (lt_of_parent? (ring.parents z memberZ)) (lt_of_parent? (ring.parents _ memberB))
  have relinks : s.Relinks s' (n :: l) := by
    refine rewires.relinks fun j hj v => ?_
    have otherN : n ≠ j := fun same => hj (same ▸ List.mem_cons_self)
    have otherZ : z ≠ j := fun same => hj (same ▸ memberZ)
    have otherB : l.headD n ≠ j := fun same => hj (same ▸ memberB)
    simp only [otherN, otherZ, otherB, if_false, and_self]
  refine ⟨s', unlinked, relinks, ⟨(List.nodup_cons.mp ring.distinct).2, ?_, ?_⟩,
    ⟨List.nodup_singleton n, ?_, ?_⟩⟩
  · intro i hi
    rw [relinks.parent]
    exact ring.parents i (List.mem_cons_of_mem n hi)
  · intro start hs
    cases l with
    | nil => simp at hs
    | cons c l =>
        cases hs
        obtain ⟨k, rfl⟩ : ∃ k', k = n :: k' := by
          cases k with
          | nil => simp at split
          | cons x k => exact ⟨k, by simp [(List.cons.inj split).1]⟩
        exact ring.isChain_joined (List.cons.inj split).2 back rewires
  · intro i hi
    rw [List.mem_singleton.mp hi, relinks.parent]
    exact ring.parents n List.mem_cons_self
  · intro start hs
    cases hs
    have forth : s.right? n = some (l.headD n) := ring.right?_first
    refine List.isChain_pair.mpr ⟨?_, ?_⟩
    · simp [rewires.right?, forth]
    · simp [rewires.left?, back.2]

/-- A ring without one of its slots is a ring. -/
theorem Ring.unlink (ring : s.Ring p (l ++ n :: r))
    : ∃ s',
        s.unlink n = some s'
        ∧ s.Relinks s' (l ++ n :: r)
        ∧ s'.Ring p (l ++ r)
        ∧ s'.Ring p [n] := by
  obtain ⟨s', unlinked, relinks, rest, single⟩ := Ring.unlink_first (l := r ++ l) ring.rotate
  refine ⟨s', unlinked, ⟨relinks.size, relinks.content, relinks.parent, fun j hj => ?_⟩,
    rest.rotate, single⟩
  exact relinks.links j (by simpa [or_comm, or_assoc, or_left_comm] using hj)

-----------------------------------------------------------------------------------------
-- Reading a ring
-----------------------------------------------------------------------------------------

/-- Reading the rest of a ring ends at its first slot, by induction over the rest. -/
theorem ringFrom_of_isChain {first steps : Nat} (chain : (i :: l ++ [first]).IsChain s.Joined)
    (fresh : first ∉ l) (enough : l.length < steps)
    : s.ringFrom first steps i = some (i :: l) := by
  induction l generalizing i steps with
  | nil =>
      obtain ⟨steps, rfl⟩ := Nat.exists_eq_add_of_lt enough
      obtain ⟨right, _⟩ := List.isChain_pair.mp chain
      obtain ⟨t, found, same⟩ : ∃ t, s.slot? i = some t ∧ t.right = first := by
        simpa [right?, links?] using right
      simp [ringFrom, found, same]
  | cons b l ih =>
      obtain ⟨joined, rest⟩ := List.isChain_cons_cons.mp chain
      obtain ⟨t, found, same⟩ : ∃ t, s.slot? i = some t ∧ t.right = b := by
        simpa [right?, links?] using joined.1
      rw [List.mem_cons, not_or] at fresh
      cases steps with
      | zero => simp at enough
      | succ steps =>
          have later := ih rest fresh.2 (Nat.lt_of_succ_lt_succ enough)
          simp [ringFrom, found, same, Ne.symm fresh.1, later]

/-- Reading a ring from its first slot on gives its slots. -/
theorem Ring.read (ring : s.Ring p l) : s.ring l.head? = some l := by
  cases l with
  | nil => rfl
  | cons a l =>
      have part : a :: l ⊆ List.range s.size := fun i hi =>
        List.mem_range.mpr (lt_of_parent? (ring.parents i hi))
      have enough : l.length < s.size := by
        have count := (ring.distinct.subperm part).length_le
        rwa [List.length_cons, List.length_range] at count
      exact ringFrom_of_isChain (ring.joined a rfl) (List.nodup_cons.mp ring.distinct).1 enough

end Wayfinding.Slots
