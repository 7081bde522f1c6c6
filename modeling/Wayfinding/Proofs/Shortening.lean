import Mathlib.Data.List.Basic
import Wayfinding.Cost
import Wayfinding.Smoothing

/-! What a shortened path has in common with the path itself: it is part of it and costs no more,
because the octile cost obeys the triangle inequality.
-/

namespace Wayfinding

-----------------------------------------------------------------------------------------
-- Costs of parts
-----------------------------------------------------------------------------------------

/-- The octile cost is the greater one of two sums. -/
theorem octile_eq_max (a b : Point)
    : octile a b
      = max (5 * ((a.x - b.x).natAbs : Int) + 2 * (a.y - b.y).natAbs)
          (5 * ((a.y - b.y).natAbs : Int) + 2 * (a.x - b.x).natAbs) := by
  simp only [octile, diagonalCost, straightCost]
  omega

/-- A way round costs no less than going straight on. -/
theorem octile_triangle (a b c : Point) : octile a c ≤ octile a b + octile b c := by
  have dx : (a.x - c.x).natAbs ≤ (a.x - b.x).natAbs + (b.x - c.x).natAbs := by omega
  have dy : (a.y - c.y).natAbs ≤ (a.y - b.y).natAbs + (b.y - c.y).natAbs := by omega
  simp only [octile_eq_max]
  omega

theorem pathCost_cons_le (a b : Point) (l : List Point)
    : pathCost (a :: l) ≤ octile a b + pathCost (b :: l) := by
  cases l with
  | nil =>
      have nonneg := octile_nonneg a b
      simpa [pathCost] using nonneg
  | cons c l =>
      have straight := octile_triangle a b c
      simp only [pathCost]
      omega

/-- Part of a path costs no more than the whole, by induction over the part. -/
theorem pathCost_cons_le_of_sublist {part whole : List Point} (h : part.Sublist whole) (a : Point)
    : pathCost (a :: part) ≤ pathCost (a :: whole) := by
  induction h generalizing a with
  | slnil => exact Int.le_refl _
  | @cons part whole b _ ih =>
      have around := pathCost_cons_le a b part
      have rest := ih b
      simp only [pathCost]
      omega
  | cons_cons b _ ih =>
      have rest := ih b
      simp only [pathCost]
      omega

-----------------------------------------------------------------------------------------
-- Shortened lists
-----------------------------------------------------------------------------------------

variable {α : Type} {test : α → Bool}

/-- The last element of a list is looked at first. -/
theorem fromLast?_concat (l : List α) (b : α)
    : fromLast? test (l ++ [b])
      = if test b then some [b] else (fromLast? test l).map (· ++ [b]) := by
  induction l with
  | nil => simp [fromLast?]
  | cons a l ih =>
      rw [List.cons_append, fromLast?, ih, fromLast?]
      cases test b with
      | true => simp
      | false =>
          cases fromLast? test l with
          | none => cases test a <;> simp
          | some found => simp

theorem fromFarthest_sublist (sees : α → α → Bool) (a : α) (l : List α)
    : (fromFarthest sees a l).Sublist l := by
  obtain ⟨skipped, split⟩ := fromFarthest_suffix sees a l
  have part := List.sublist_append_right skipped (fromFarthest sees a l)
  rwa [← split] at part

/-- A shortened list is part of the list, by induction along the recursion. -/
theorem shorten_sublist (sees : α → α → Bool) (l : List α) : (shorten sees l).Sublist l := by
  induction l using shorten.induct sees with
  | case1 => rw [shorten]
  | case2 a rest ih =>
      rw [shorten]
      exact (ih.trans (fromFarthest_sublist sees a rest)).cons_cons a

/-- A shortened path costs no more than the path. -/
theorem pathCost_shorten_le (sees : Point → Point → Bool) (path : List Point)
    : pathCost (shorten sees path) ≤ pathCost path := by
  cases path with
  | nil => simp [shorten]
  | cons a rest =>
      rw [shorten]
      have part := (shorten_sublist sees _).trans (fromFarthest_sublist sees a rest)
      exact pathCost_cons_le_of_sublist part a

end Wayfinding
