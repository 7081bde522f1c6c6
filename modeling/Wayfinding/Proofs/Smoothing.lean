import Wayfinding.Proofs.Checked.Paths

/-! What shortening makes of a path: each cell that is kept is followed by the last one in sight of
it, by its place in the path, and shortening the shortened path once more changes nothing. Neither
fact asks anything of the test of sight.
-/

namespace Wayfinding

variable {α : Type} {sees : α → α → Bool} {test : α → Bool}

-----------------------------------------------------------------------------------------
-- Nothing beyond the farthest element
-----------------------------------------------------------------------------------------

/-- Behind the element that is found no other passes the test. -/
theorem fromLast?_tail {l found : List α} (h : fromLast? test l = some found)
    : ∀ b ∈ found.tail, test b = false := by
  induction l with
  | nil => cases h
  | cons c more ih =>
      rw [fromLast?] at h
      split at h
      · rename_i later
        exact ih (later.trans h)
      · rename_i unfound
        split at h
        · cases h
          exact fromLast?_eq_none.mp unfound
        · cases h

/-- What follows an element in a shortened list begins with the last one that it sees, or else all
that comes after the next one is out of its sight.
-/
theorem fromFarthest_tail (sees : α → α → Bool) (a : α) (l : List α)
    : ∀ b ∈ (fromFarthest sees a l).tail, sees a b = false := by
  cases l with
  | nil => simp [fromFarthest]
  | cons b more =>
      rw [fromFarthest]
      cases found : fromLast? (sees a) more with
      | none => exact fromLast?_eq_none.mp found
      | some rest => exact fromLast?_tail found

/-- Nothing is left out if nothing after the next element is in sight. -/
theorem fromFarthest_of_unseen {a : α} {l : List α} (unseen : ∀ b ∈ l.tail, sees a b = false)
    : fromFarthest sees a l = l := by
  cases l with
  | nil => rfl
  | cons b more =>
      have nothing : fromLast? (sees a) more = none := fromLast?_eq_none.mpr unseen
      rw [fromFarthest, nothing]
      rfl

/-- What follows an element comes to nothing only at the end of the list. -/
theorem fromFarthest_eq_nil {a : α} {l : List α} : fromFarthest sees a l = [] ↔ l = [] := by
  cases l with
  | nil => simp [fromFarthest]
  | cons b more =>
      rw [fromFarthest]
      cases found : fromLast? (sees a) more with
      | none => simp
      | some rest =>
          obtain ⟨_, _, _, _, rfl, _⟩ := fromLast?_eq_some found
          simp

-----------------------------------------------------------------------------------------
-- Shortening again
-----------------------------------------------------------------------------------------

theorem shorten_cons (sees : α → α → Bool) (a : α) (rest : List α)
    : shorten sees (a :: rest) = a :: shorten sees (fromFarthest sees a rest) := by
  rw [shorten]

theorem shorten_tail_sublist (sees : α → α → Bool) (l : List α)
    : (shorten sees l).tail.Sublist l.tail := by
  cases l with
  | nil => rw [shorten]
  | cons a rest =>
      rw [shorten_cons]
      exact (shorten_sublist sees _).trans (fromFarthest_sublist sees a rest)

/-- A shortened list cannot be shortened any further, by induction along the recursion: what follows
an element has only lost elements, and those that it saw had been left out before.
-/
theorem shorten_shorten (sees : α → α → Bool) (l : List α)
    : shorten sees (shorten sees l) = shorten sees l := by
  induction l using shorten.induct sees with
  | case1 => rw [shorten, shorten]
  | case2 a rest ih =>
      have unseen : ∀ b ∈ (shorten sees (fromFarthest sees a rest)).tail, sees a b = false :=
        fun b member =>
          fromFarthest_tail sees a rest b ((shorten_tail_sublist sees _).subset member)
      rw [shorten_cons, shorten_cons, fromFarthest_of_unseen unseen, ih]

-----------------------------------------------------------------------------------------
-- The places that are kept
-----------------------------------------------------------------------------------------

/-- The element at the place `i` sees the one at the place `j`. -/
def InSight (sees : α → α → Bool) (l : List α) (i j : Nat) : Prop :=
  ∃ a b, l[i]? = some a ∧ l[j]? = some b ∧ sees a b = true

/-- Where a shortened list goes on after the place `i`: at the last place in sight of it that leaves
something out, and at the next place if there is none.
-/
inductive GoesOn (sees : α → α → Bool) (l : List α) (i : Nat) : Nat → Prop
  | farthest {j : Nat} (beyond : i + 2 ≤ j) (seen : InSight sees l i j)
    (last : ∀ k, i + 2 ≤ k → InSight sees l i k → k ≤ j)
    : GoesOn sees l i j
  | next (unseen : ∀ k, i + 2 ≤ k → ¬ InSight sees l i k) : GoesOn sees l i (i + 1)

/-- The places run from the first one of a list to the last one, and each is followed by the one
where the shortened list goes on.
-/
structure Selects (sees : α → α → Bool) (l : List α) (places : List Nat) : Prop where
  first : places.head? = some 0
  last : places.getLast? = some (l.length - 1)
  increasing : places.Pairwise (· < ·)
  goesOn : places.IsChain (GoesOn sees l)

/-- What stands in front of a list does not change what is in sight within it. -/
theorem inSight_append (before l : List α) (i j : Nat)
    : InSight sees (before ++ l) (before.length + i) (before.length + j) ↔ InSight sees l i j := by
  simp [InSight, List.getElem?_append_right]

theorem GoesOn.append {l : List α} {i j : Nat} (h : GoesOn sees l i j) (before : List α)
    : GoesOn sees (before ++ l) (before.length + i) (before.length + j) := by
  cases h with
  | farthest beyond seen last =>
      refine .farthest (by omega) ((inSight_append before l i j).mpr seen) fun k far inSight => ?_
      obtain ⟨k, rfl⟩ := Nat.exists_eq_add_of_le (show before.length ≤ k by omega)
      have bound := last k (by omega) ((inSight_append before l i k).mp inSight)
      omega
  | next unseen =>
      refine .next fun k far inSight => ?_
      obtain ⟨k, rfl⟩ := Nat.exists_eq_add_of_le (show before.length ≤ k by omega)
      exact unseen k (by omega) ((inSight_append before l i k).mp inSight)

/-- An element that sees none of what comes after a place sees no farther than that place. -/
theorem InSight.le {a : α} {l : List α} {k : Nat} (unseen : ∀ b ∈ l.tail, sees a b = false)
    (skipped : List α) (h : InSight sees (a :: skipped ++ l) 0 k)
    : k ≤ skipped.length + 1 := by
  by_contra beyond
  obtain ⟨k, rfl⟩ := Nat.exists_eq_add_of_lt (Nat.lt_of_not_le beyond)
  obtain ⟨a', b, first, place, seen⟩ := h
  cases first
  have member : b ∈ l.tail := by
    rw [List.getElem?_append_right (by simp; omega)] at place
    refine List.mem_of_getElem? (i := k) ?_
    rw [List.getElem?_tail, ← place]
    congr 1
    simp
    omega
  rw [unseen b member] at seen
  cases seen

/-- What follows the first element is where the list goes on after it. -/
theorem exists_goesOn (sees : α → α → Bool) (a : α) {rest : List α} (nonempty : rest ≠ [])
    : ∃ skipped,
        rest = skipped ++ fromFarthest sees a rest
        ∧ GoesOn sees (a :: rest) 0 (skipped.length + 1) := by
  obtain ⟨b, more, rfl⟩ := List.exists_cons_of_ne_nil nonempty
  have unseen := fromFarthest_tail sees a (b :: more)
  rw [fromFarthest] at unseen ⊢
  cases found : fromLast? (sees a) more with
  | none =>
      simp only [found, Option.getD_none] at unseen ⊢
      refine ⟨[], rfl, .next fun k far inSight => ?_⟩
      have near := InSight.le unseen [] inSight
      simp only [List.length_nil] at near
      omega
  | some rest =>
      obtain ⟨skipped, c, rest, rfl, rfl, seen⟩ := fromLast?_eq_some found
      simp only [found, Option.getD_some] at unseen ⊢
      refine ⟨b :: skipped, rfl, .farthest (by simp) ⟨a, c, rfl, ?_, seen⟩ fun k _ inSight => ?_⟩
      · simp
      · exact InSight.le unseen (b :: skipped) inSight

/-- In front of the places of what follows comes the first one, if the list goes on there: what
follows has moved back by as many places as stand before it.
-/
theorem Selects.cons {a : α} {skipped followed : List α} {places : List Nat}
    (selects : Selects sees followed places) (left : followed ≠ [])
    (goesOn : GoesOn sees (a :: skipped ++ followed) 0 (skipped.length + 1))
    : Selects sees (a :: skipped ++ followed)
        (0 :: places.map ((a :: skipped).length + ·)) := by
  refine ⟨rfl, ?_, ?_, ?_⟩
  · have length := List.length_pos_of_ne_nil left
    rw [List.getLast?_cons, List.getLast?_map, selects.last]
    simp
    omega
  · refine List.pairwise_cons.mpr ⟨by simp, ?_⟩
    exact List.pairwise_map.mpr (selects.increasing.imp fun less => by omega)
  · refine List.isChain_cons.mpr ⟨?_, ?_⟩
    · rw [List.head?_map, selects.first]
      simpa using goesOn
    · exact List.isChain_map_of_isChain _ (fun _ _ goes => goes.append (a :: skipped))
        selects.goesOn

/-- Shortening a list keeps the elements at selected places, by induction along the recursion. -/
theorem exists_selects (sees : α → α → Bool) {l : List α} (nonempty : l ≠ [])
    : ∃ places, Selects sees l places ∧ (shorten sees l).map some = places.map (l[·]?) := by
  induction l using shorten.induct sees with
  | case1 => exact absurd rfl nonempty
  | case2 a rest ih =>
      by_cases more : rest = []
      · subst more
        refine ⟨[0], ⟨rfl, rfl, by simp, by simp⟩, ?_⟩
        simp [shorten, fromFarthest]
      · obtain ⟨skipped, split, goesOn⟩ := exists_goesOn sees a more
        have left : fromFarthest sees a rest ≠ [] := mt fromFarthest_eq_nil.mp more
        obtain ⟨places, selects, kept⟩ := ih left
        generalize same : fromFarthest sees a rest = followed at split left ih kept selects
        subst split
        refine ⟨_, selects.cons left goesOn, ?_⟩
        have behind (i : Nat)
            : (a :: skipped ++ followed)[(a :: skipped).length + i]? = followed[i]? := by
          rw [List.getElem?_append_right (Nat.le_add_right _ i), Nat.add_sub_cancel_left]
        rw [shorten_cons, same, List.map_cons, kept, List.map_cons, List.map_map]
        congr 1
        exact List.map_congr_left fun i _ => (behind i).symm

theorem shorten_head? (sees : α → α → Bool) (l : List α) : (shorten sees l).head? = l.head? := by
  cases l with
  | nil => rw [shorten]
  | cons a rest => rw [shorten_cons, List.head?_cons, List.head?_cons]

/-- A list is shortened to its end, because the last of the selected places is its last one. -/
theorem shorten_getLast? (sees : α → α → Bool) (l : List α)
    : (shorten sees l).getLast? = l.getLast? := by
  by_cases empty : l = []
  · rw [empty, shorten]
  · obtain ⟨places, selects, kept⟩ := exists_selects sees empty
    have last := congrArg List.getLast? kept
    rw [List.getLast?_map, List.getLast?_map, selects.last, Option.map_some,
      ← List.getLast?_eq_getElem?] at last
    obtain ⟨a, found, same⟩ := Option.map_eq_some_iff.mp last
    exact found.trans same

-----------------------------------------------------------------------------------------
-- Smoothed paths
-----------------------------------------------------------------------------------------

namespace Terrain

theorem seesCell_iff {t : Terrain} {p q : Point}
    : t.seesCell p q = true ↔ t.obstacle? p.center q.center = none := by
  rw [seesCell, sees, Option.isNone_iff_eq_none]

/-- A terrain whose middle cell is blocked. -/
def pillar : Terrain where
  extent := ⟨⟨3, 3⟩, by decide, by decide, by decide, by decide⟩
  blocked := (Layer.fill _ false).set ⟨1, 1⟩ true

/-- A path around the middle cell. -/
def rim : List Point :=
  [⟨0, 0⟩, ⟨1, 0⟩, ⟨2, 0⟩, ⟨2, 1⟩, ⟨2, 2⟩]

/-- Smoothing a smoothed path changes nothing, also where the cells are taken out of the list in
place and the scan goes on in what is left of it. The same holds for any other test of sight.
-/
theorem smooth_smooth (t : Terrain) (path : List Point)
    : t.smooth (t.smooth path) = t.smooth path
      ∧ (path.length < 18446744073709551614
          → ∃ smoothed,
              Checked.smooth t path = some smoothed ∧ Checked.smooth t smoothed = some smoothed)
      ∧ ∀ sees : Point → Point → Bool, shorten sees (shorten sees path) = shorten sees path := by
  have again : t.smooth (t.smooth path) = t.smooth path := shorten_shorten t.seesCell path
  refine ⟨again, fun short => ⟨t.smooth path, Checked.smooth_eq short, ?_⟩,
    fun sees => shorten_shorten sees path⟩
  have shorter : (t.smooth path).length ≤ path.length := (shorten_sublist t.seesCell path).length_le
  rw [Checked.smooth_eq (Nat.lt_of_le_of_lt shorter short), again]

theorem smooth_smooth_pillar
    : rim.length < 18446744073709551614
      ∧ pillar.smooth rim = [⟨0, 0⟩, ⟨2, 0⟩, ⟨2, 2⟩]
      ∧ pillar.smooth (pillar.smooth rim) = pillar.smooth rim
      ∧ ∃ smoothed,
          Checked.smooth pillar rim = some smoothed
          ∧ Checked.smooth pillar smoothed = some smoothed := by
  have short : rim.length < 18446744073709551614 := by decide
  obtain ⟨again, inPlace, _⟩ := smooth_smooth pillar rim
  exact ⟨short, by decide +kernel, again, inPlace short⟩

/-- Smoothing keeps the cells of a path at selected places: after each one it goes on at the last
place that leaves cells out and whose cell has no obstacle between it and this one, or else at the
next place. So nothing is in the way wherever cells are left out.
-/
theorem smooth_selects (t : Terrain) {path : List Point} (nonempty : path ≠ [])
    : (∃ places,
          Selects t.seesCell path places
          ∧ (t.smooth path).map some = places.map (path[·]?)
          ∧ places.IsChain fun i j =>
              i + 1 < j
              → ∃ p q,
                  path[i]? = some p
                  ∧ path[j]? = some q
                  ∧ t.obstacle? p.center q.center = none)
      ∧ (path.length < 18446744073709551614 → Checked.smooth t path = some (t.smooth path)) := by
  obtain ⟨places, selects, kept⟩ := exists_selects t.seesCell nonempty
  refine ⟨⟨places, selects, kept, selects.goesOn.imp fun i j goes skips => ?_⟩, Checked.smooth_eq⟩
  cases goes with
  | farthest _ seen _ =>
      obtain ⟨p, q, first, last, seen⟩ := seen
      exact ⟨p, q, first, last, seesCell_iff.mp seen⟩
  | next => omega

theorem smooth_selects_pillar
    : rim ≠ []
      ∧ ∃ places,
          Selects pillar.seesCell rim places
          ∧ places.map (rim[·]?) = [some ⟨0, 0⟩, some ⟨2, 0⟩, some ⟨2, 2⟩] := by
  have nonempty : rim ≠ [] := by decide
  have smoothed : pillar.smooth rim = [⟨0, 0⟩, ⟨2, 0⟩, ⟨2, 2⟩] := by decide +kernel
  obtain ⟨⟨places, selects, kept, _⟩, _⟩ := smooth_selects pillar nonempty
  rw [smoothed] at kept
  exact ⟨nonempty, places, selects, kept.symm⟩

end Terrain

end Wayfinding
