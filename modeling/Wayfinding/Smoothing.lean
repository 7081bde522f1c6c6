import Wayfinding.Sight

/-!
Shortening a path. Every cell that is kept is followed by the farthest later cell in sight of it,
and by the next cell of the path where none beyond that is in sight.
-/

namespace Wayfinding

/-- The rest of a list from the last element on that passes a test. -/
def fromLast? (test : α → Bool) : List α → Option (List α)
  | [] => none
  | a :: rest =>
      match fromLast? test rest with
      | some found => some found
      | none => if test a then some (a :: rest) else none

/-- What follows `a` in a shortened path: the rest from the last element on that `a` sees, but the
first one needs no sight.
-/
def fromFarthest (sees : α → α → Bool) (a : α) : List α → List α
  | [] => []
  | b :: more => (fromLast? (sees a) more).getD (b :: more)

/-- What is found is an end of the list, and its first element passes the test. -/
theorem fromLast?_eq_some {test : α → Bool} {l found : List α} (h : fromLast? test l = some found)
    : ∃ skipped a rest, l = skipped ++ found ∧ found = a :: rest ∧ test a = true := by
  induction l generalizing found with
  | nil => simp [fromLast?] at h
  | cons b more ih =>
      unfold fromLast? at h
      split at h
      · rename_i f hf
        obtain ⟨skipped, a, rest, hl, hr, ht⟩ := ih hf
        cases h
        exact ⟨b :: skipped, a, rest, by rw [hl, List.cons_append], hr, ht⟩
      · split at h
        · cases h
          exact ⟨[], b, more, rfl, rfl, by assumption⟩
        · simp at h

/-- Nothing is found exactly when no element passes the test. -/
theorem fromLast?_eq_none {test : α → Bool} {l : List α}
    : fromLast? test l = none ↔ ∀ a ∈ l, test a = false := by
  induction l with
  | nil => simp [fromLast?]
  | cons b more ih =>
      unfold fromLast?
      split
      · rename_i f hf
        have : ¬ ∀ a ∈ more, test a = false := fun h => by simp [ih.mpr h] at hf
        simp [this]
      · rename_i hf
        have := ih.mp hf
        simp
        grind

/-- What follows is an end of the rest. -/
theorem fromFarthest_suffix (sees : α → α → Bool) (a : α) (l : List α)
    : ∃ skipped, l = skipped ++ fromFarthest sees a l := by
  cases l with
  | nil => exact ⟨[], rfl⟩
  | cons b more =>
      cases h : fromLast? (sees a) more with
      | none => exact ⟨[], by simp [fromFarthest, h]⟩
      | some found =>
          obtain ⟨skipped, _, _, hl, _⟩ := fromLast?_eq_some h
          refine ⟨b :: skipped, ?_⟩
          rw [fromFarthest, h, Option.getD_some, hl, List.cons_append]

theorem fromFarthest_length_le (sees : α → α → Bool) (a : α) (l : List α)
    : (fromFarthest sees a l).length ≤ l.length := by
  obtain ⟨skipped, h⟩ := fromFarthest_suffix sees a l
  have := congrArg List.length h
  simp only [List.length_append] at this
  omega

/-- The list shortened by a test of sight. -/
def shorten (sees : α → α → Bool) : List α → List α
  | [] => []
  | a :: rest => a :: shorten sees (fromFarthest sees a rest)
termination_by l => l.length
decreasing_by
  have := fromFarthest_length_le sees a rest
  simp only [List.length_cons]
  omega

namespace Terrain

/-- The middles of two cells see each other. -/
def seesCell (t : Terrain) (p q : Point) : Bool :=
  t.sees p.center q.center

/-- The path shortened by the sight between the middles of its cells. -/
def smooth (t : Terrain) (path : List Point) : List Point :=
  shorten t.seesCell path

end Terrain

end Wayfinding
