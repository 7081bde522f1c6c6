import Mathlib.Data.List.DropRight
import Mathlib.Data.List.Forall2
import Wayfinding.Text.Blank

/-! Lines and the blanks around them. The lines of a text are its parts between line feeds, and a
trimmed line is what is left between its blanks; lines without blanks come back as they were joined.
-/

namespace Wayfinding.Text

variable {cs l : List Char} {ls : List (List Char)}

-----------------------------------------------------------------------------------------
-- Lines
-----------------------------------------------------------------------------------------

theorem lines_eq_splitOn (cs : List Char) : lines cs = cs.splitOn '\n' := by
  induction cs with
  | nil => rfl
  | cons c cs ih =>
      rw [lines, List.splitOn_cons_eq_if_modifyHead, ih]
      by_cases feed : c = '\n'
      · rw [if_pos feed, if_pos (beq_iff_eq.mpr feed)]
      · rw [if_neg feed, if_neg (mt beq_iff_eq.mp feed)]
        cases split : cs.splitOn '\n' with
        | nil => exact absurd split (List.splitOn_ne_nil _ cs)
        | cons l ls => rfl

/-- A text is its lines with line feeds between them. -/
theorem intercalate_lines (cs : List Char) : ['\n'].intercalate (lines cs) = cs := by
  rw [lines_eq_splitOn, List.intercalate_splitOn]

/-- No line has a line feed, by induction over the text. -/
theorem feed_not_mem_lines (cs : List Char) : ∀ l ∈ lines cs, '\n' ∉ l := by
  induction cs with
  | nil => simp [lines]
  | cons c cs ih =>
      rw [lines]
      split
      · simpa using ih
      · rename_i other
        split
        · simpa using Ne.symm other
        · rename_i l ls split
          rw [split] at ih
          simp only [List.mem_cons, forall_eq_or_imp] at ih ⊢
          exact ⟨by simp [Ne.symm other, ih.1], ih.2⟩

-----------------------------------------------------------------------------------------
-- Trimming
-----------------------------------------------------------------------------------------

/-- What is left of a line without the blanks around it: it neither begins nor ends with a blank. -/
structure Trims (line inner : List Char) : Prop where
  around : ∃ before after, line = before ++ inner ++ after ∧ ∀ c ∈ before ++ after, isBlank c = true
  first : ∀ c ∈ inner.head?, isBlank c = false
  last : ∀ c ∈ inner.getLast?, isBlank c = false

theorem trim_eq (cs : List Char) : trim cs = (cs.dropWhile isBlank).rdropWhile isBlank :=
  rfl

theorem trims_trim (cs : List Char) : Trims cs (trim cs) := by
  rw [trim_eq]
  have front := List.takeWhile_append_dropWhile (p := isBlank) (l := cs)
  have back := List.rdropWhile_append_rtakeWhile (p := isBlank) (l := cs.dropWhile isBlank)
  refine ⟨⟨cs.takeWhile isBlank, (cs.dropWhile isBlank).rtakeWhile isBlank, ?_, ?_⟩, ?_, ?_⟩
  · rw [List.append_assoc, back, front]
  · intro c member
    rcases List.mem_append.mp member with before | after
    · exact List.mem_takeWhile_imp before
    · exact List.mem_rtakeWhile_imp after
  · intro c first
    obtain ⟨rest, begins⟩ := List.head?_eq_some_iff.mp first
    have notBlank := List.head?_dropWhile_not isBlank cs
    rw [← back, begins] at notBlank
    exact notBlank
  · intro c last
    obtain ⟨nonempty, rfl⟩ := List.mem_getLast?_eq_getLast last
    exact Bool.eq_false_iff.mpr (List.rdropWhile_last_not isBlank _ nonempty)

/-- Nothing is trimmed off what has no blanks. -/
theorem trim_of_solid (solid : ∀ c ∈ cs, isBlank c = false) : trim cs = cs := by
  have front : cs.dropWhile isBlank = cs :=
    List.dropWhile_eq_self_iff.mpr fun _ => by simp [solid]
  rw [trim_eq, front, List.rdropWhile_eq_self_iff]
  exact fun _ => by simp [solid]

/-- The trimmed lines of a text are what is left of its lines, apart from those of which nothing is.
-/
theorem exists_trimmedLines (cs : List Char)
    : ∃ lines inners,
        ['\n'].intercalate lines = cs
        ∧ (∀ l ∈ lines, '\n' ∉ l)
        ∧ List.Forall₂ Trims lines inners
        ∧ trimmedLines cs = inners.filter fun l => !l.isEmpty := by
  refine ⟨lines cs, (lines cs).map trim, intercalate_lines cs, feed_not_mem_lines cs, ?_, rfl⟩
  exact List.forall₂_map_right_iff.mpr (List.forall₂_same.mpr fun l _ => trims_trim l)

/-- Lines without blanks that are not empty come back from the text that they make up. -/
theorem trimmedLines_intercalate (nonempty : ls ≠ []) (filled : ∀ l ∈ ls, l ≠ [])
    (solid : ∀ l ∈ ls, ∀ c ∈ l, isBlank c = false)
    : trimmedLines (['\n'].intercalate ls) = ls := by
  have whole : ∀ l ∈ ls, '\n' ∉ l := by
    intro l member feed
    have blank := solid l member '\n' feed
    revert blank
    decide
  have trimmed : ls.map trim = ls :=
    (List.map_congr_left fun l member => trim_of_solid (solid l member)).trans (List.map_id ls)
  rw [trimmedLines, lines_eq_splitOn, List.splitOn_intercalate '\n' whole nonempty, trimmed,
    List.filter_eq_self]
  simpa using filled

end Wayfinding.Text
