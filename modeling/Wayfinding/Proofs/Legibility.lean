import Wayfinding.Proofs.Drawings

/-! Which drawings can be read, and why the others are refused. The rows are gone through from the
top and each one is asked for its width before its characters, so the reason lies in the first row
that is not as wide as the first one of all or shows anything else than obstacles and open cells.
Rows without such a fault have a size that a map can have.
-/

namespace Wayfinding

variable {α β : Type}

-----------------------------------------------------------------------------------------
-- The first element that fails a test
-----------------------------------------------------------------------------------------

/-- The element at the place `i` is the first one of a list that fails a test. -/
structure FirstFailing (test : α → Prop) (l : List α) (i : Nat) (a : α) : Prop where
  place : l[i]? = some a
  fails : ¬ test a
  before : ∀ j < i, ∀ b, l[j]? = some b → test b

variable {test : α → Prop} {l : List α} {i : Nat} {a b : α}

theorem FirstFailing.mem (first : FirstFailing test l i a) : a ∈ l :=
  List.mem_of_getElem? first.place

/-- The first element fails, or it passes and the first one to fail comes later. -/
theorem firstFailing_cons
    : FirstFailing test (b :: l) i a
      ↔ i = 0 ∧ a = b ∧ ¬ test b
        ∨ test b ∧ ∃ j, i = j + 1 ∧ FirstFailing test l j a := by
  constructor
  · rintro ⟨place, fails, before⟩
    cases i with
    | zero =>
        obtain rfl : b = a := by simpa using place
        exact .inl ⟨rfl, rfl, fails⟩
    | succ j =>
        refine .inr ⟨before 0 (Nat.succ_pos j) b rfl, j, rfl, by simpa using place, fails, ?_⟩
        exact fun k less c found => before (k + 1) (Nat.succ_lt_succ less) c (by simpa using found)
  · rintro (⟨rfl, rfl, fails⟩ | ⟨passes, j, rfl, place, fails, before⟩)
    · exact ⟨rfl, fails, by simp⟩
    · refine ⟨by simpa using place, fails, fun k less c found => ?_⟩
      cases k with
      | zero =>
          obtain rfl : b = c := by simpa using found
          exact passes
      | succ k => exact before k (Nat.lt_of_succ_lt_succ less) c (by simpa using found)

/-- A search that goes through a list with its places, and finds something just where an element
fails a test, finds it at the first such element, by induction over the list.
-/
theorem findSome?_zipIdx (find : α × Nat → Option β) {found : β}
    (clean : ∀ a i, find (a, i) = none ↔ test a) (l : List α) (start : Nat)
    : (l.zipIdx start).findSome? find = some found
      ↔ ∃ i a, FirstFailing test l i a ∧ find (a, start + i) = some found := by
  induction l generalizing start with
  | nil =>
      constructor
      · simp
      · rintro ⟨_, _, first, _⟩
        exact absurd first.mem List.not_mem_nil
  | cons b l ih =>
      rw [List.zipIdx_cons, List.findSome?_cons]
      cases here : find (b, start) with
      | none =>
          have passes := (clean b start).mp here
          simp only [ih, firstFailing_cons]
          constructor
          · rintro ⟨i, a, first, answer⟩
            refine ⟨i + 1, a, .inr ⟨passes, i, rfl, first⟩, ?_⟩
            rwa [Nat.add_right_comm, Nat.add_assoc] at answer
          · rintro ⟨_, a, ⟨_, _, fails⟩ | ⟨_, i, rfl, first⟩, answer⟩
            · exact absurd passes fails
            · refine ⟨i, a, first, ?_⟩
              rwa [Nat.add_right_comm, Nat.add_assoc]
      | some answer =>
          have fails : ¬ test b := fun passes => by simp [(clean b start).mpr passes] at here
          simp only [firstFailing_cons]
          constructor
          · intro same
            exact ⟨0, b, .inl ⟨rfl, rfl, fails⟩, here.trans same⟩
          · rintro ⟨_, a, ⟨rfl, rfl, _⟩ | ⟨passes, _⟩, same⟩
            · exact here.symm.trans same
            · exact absurd passes fails

-----------------------------------------------------------------------------------------
-- Rows and their faults
-----------------------------------------------------------------------------------------

namespace Drawing

variable {rows : List (List Char)} {row : List Char} {width y : Nat} {fault : ReadFault}

/-- The character shows an obstacle or an open cell. -/
def Known (c : Char) : Prop :=
  c = '#' ∨ c = '.'

/-- The row has this width and shows nothing but obstacles and open cells. -/
def Regular (width : Nat) (row : List Char) : Prop :=
  row.length = width ∧ ∀ c ∈ row, Known c

instance (c : Char) : Decidable (Known c) :=
  inferInstanceAs (Decidable (_ ∨ _))

instance (width : Nat) (row : List Char) : Decidable (Regular width row) :=
  have := List.decidableBAll Known row
  instDecidableAnd

/-- The width that all rows should have: that of the first one. -/
def columns (rows : List (List Char)) : Nat :=
  (rows.headD []).length

/-- The fault of a row is its width, or else its first unknown character. -/
theorem rowFault?_eq_some
    : rowFault? width y row = some fault
      ↔ row.length ≠ width ∧ fault = .ragged y
        ∨ row.length = width
          ∧ ∃ x c, FirstFailing Known row x c ∧ fault = .badChar c ⟨x, y⟩ := by
  rw [rowFault?]
  by_cases wide : row.length = width
  · rw [if_neg (not_not.mpr wide), List.find?_eq_findSome?_guard, List.map_findSome?]
    have clean (c : Char) (x : Nat)
        : ((Option.guard (fun entry : Char × Nat => entry.1 != '#' && entry.1 != '.') (c, x)).map
            fun entry => ReadFault.badChar entry.1 ⟨entry.2, y⟩) = none
          ↔ Known c := by
      simp [Known, or_iff_not_imp_left]
    refine (findSome?_zipIdx _ clean row 0).trans ?_
    simp only [wide, ne_eq, not_true_eq_false, false_and, false_or, true_and]
    refine exists₂_congr fun x c => and_congr_right fun first => ?_
    have unknown := first.fails
    simp only [Known, not_or] at unknown
    simp only [Function.comp_apply, Option.guard, unknown, bne_iff_ne, ne_eq, not_false_eq_true,
      and_self, if_true, Option.map_some, Option.some.injEq, Nat.zero_add, Bool.and_eq_true]
    exact eq_comm
  · simp [wide, eq_comm]

-----------------------------------------------------------------------------------------
-- Drawings and their faults
-----------------------------------------------------------------------------------------

/-- The fault of the topmost row that has one. -/
def firstFault? (rows : List (List Char)) : Option ReadFault :=
  rows.zipIdx.findSome? fun line => rowFault? (columns rows) line.2 line.1

theorem firstFault?_eq_some
    : firstFault? rows = some fault
      ↔ ∃ y row,
          FirstFailing (Regular (columns rows)) rows y row
          ∧ rowFault? (columns rows) y row = some fault := by
  have clean (row : List Char) (y : Nat)
      : rowFault? (columns rows) y row = none ↔ Regular (columns rows) row := rowFault?_eq_none
  refine (findSome?_zipIdx _ clean rows 0).trans ?_
  simp only [Nat.zero_add]

theorem firstFault?_eq_none
    : firstFault? rows = none ↔ ∀ row ∈ rows, Regular (columns rows) row := by
  rw [firstFault?, List.findSome?_eq_none_iff]
  constructor
  · intro faultless row line
    obtain ⟨y, place⟩ := List.mem_iff_getElem?.mp line
    exact rowFault?_eq_none.mp (faultless (row, y) (List.mem_zipIdx_iff_getElem?.mpr place))
  · rintro regular ⟨row, y⟩ place
    exact rowFault?_eq_none.mpr (regular row (List.fst_mem_of_mem_zipIdx place))

/-- Unless there are no rows at all, this fault is the one that is reported. -/
theorem ofRows_of_firstFault? (nonempty : rows ≠ []) (found : firstFault? rows = some fault)
    : ofRows rows = .error fault := by
  obtain ⟨first, rest, rfl⟩ := List.exists_cons_of_ne_nil nonempty
  rw [ofRows]
  split
  · rename_i same
    cases same.symm.trans found
    rfl
  · rename_i none
    cases none.symm.trans found

/-- Rows are legible for a map if there is one, none is empty, and all are regular, unless there are
too many rows or columns for any map.
-/
theorem exists_legible_of_regular (nonempty : rows ≠ []) (filled : ∀ row ∈ rows, row ≠ [])
    (short : rows.length < 2147483648) (narrow : ∀ row ∈ rows, row.length < 2147483648)
    (regular : ∀ row ∈ rows, Regular (columns rows) row)
    : ∃ e, Legible e rows := by
  obtain ⟨first, rest, rfl⟩ := List.exists_cons_of_ne_nil nonempty
  have width := List.length_pos_of_ne_nil (filled first List.mem_cons_self)
  have narrow := narrow first List.mem_cons_self
  have height : 0 < (first :: rest).length := Nat.succ_pos _
  refine ⟨⟨⟨first.length, (first :: rest).length⟩, ?_, ?_, ?_, ?_⟩, rfl, ?_, ?_⟩
  · exact Int.natCast_pos.mpr width
  · exact Int.natCast_pos.mpr height
  · dsimp only
    omega
  · dsimp only
    omega
  · exact fun row line => congrArg Int.ofNat (regular row line).1
  · exact fun row line => (regular row line).2

/-- A map is read from rows that are all regular, and from no others. -/
theorem exists_ofRows_iff (filled : ∀ row ∈ rows, row ≠ []) (short : rows.length < 2147483648)
    (narrow : ∀ row ∈ rows, row.length < 2147483648)
    : (∃ m, ofRows rows = .ok m) ↔ rows ≠ [] ∧ ∀ row ∈ rows, Regular (columns rows) row := by
  constructor
  · rintro ⟨m, read⟩
    obtain ⟨e, legible, _⟩ := ofRows_eq_ok.mp read
    cases rows with
    | nil => cases read
    | cons first rest =>
        refine ⟨List.cons_ne_nil _ _, fun row line => ⟨?_, legible.symbols row line⟩⟩
        have width := legible.width row line
        have firstWidth := legible.width first List.mem_cons_self
        exact Int.ofNat_inj.mp (width.trans firstWidth.symm)
  · rintro ⟨nonempty, regular⟩
    obtain ⟨e, legible⟩ := exists_legible_of_regular nonempty filled short narrow regular
    exact ⟨_, ofRows_of_legible legible⟩

/-- Rows are refused because there are none, or for the fault of the first one that is not regular.
-/
theorem ofRows_eq_error (filled : ∀ row ∈ rows, row ≠ []) (short : rows.length < 2147483648)
    (narrow : ∀ row ∈ rows, row.length < 2147483648)
    : ofRows rows = .error fault
      ↔ rows = [] ∧ fault = .empty
        ∨ ∃ y row,
            FirstFailing (Regular (columns rows)) rows y row
            ∧ rowFault? (columns rows) y row = some fault := by
  cases rows with
  | nil =>
      constructor
      · intro refused
        cases refused
        exact .inl ⟨rfl, rfl⟩
      · rintro (⟨_, rfl⟩ | ⟨_, _, first, _⟩)
        · rfl
        · exact absurd first.mem List.not_mem_nil
  | cons first rest =>
      have nonempty : first :: rest ≠ [] := List.cons_ne_nil _ _
      rw [← firstFault?_eq_some]
      simp only [nonempty, false_and, false_or]
      cases found : firstFault? (first :: rest) with
      | some other =>
          rw [ofRows_of_firstFault? nonempty found, Except.error.injEq, Option.some.injEq]
      | none =>
          obtain ⟨m, read⟩ := (exists_ofRows_iff filled short narrow).mpr
            ⟨nonempty, firstFault?_eq_none.mp found⟩
          simp only [read, reduceCtorEq]

-----------------------------------------------------------------------------------------
-- The answer to a drawing
-----------------------------------------------------------------------------------------

/-- How the rows of a drawing determine the answer to it: it is empty without rows and a map if all
rows are regular; or else the first row that is not has another width or, at the right width, an
unknown character, and the first one of these is reported. Nothing else is, least of all a fault of
the map.
-/
structure Verdict (rows : List (List Char)) (answer : Except ReadFault GridMap) : Prop where
  empty : answer = .error .empty ↔ rows = []
  accepted : (∃ m, answer = .ok m) ↔ rows ≠ [] ∧ ∀ row ∈ rows, Regular (columns rows) row
  ragged : ∀ y, answer = .error (.ragged y)
    ↔ ∃ row,
        FirstFailing (Regular (columns rows)) rows y row
        ∧ row.length ≠ columns rows
  badChar : ∀ c p, answer = .error (.badChar c p)
    ↔ ∃ (x y : Nat) (row : List Char),
        FirstFailing (Regular (columns rows)) rows y row
        ∧ row.length = columns rows
        ∧ FirstFailing Known row x c
        ∧ p = ⟨x, y⟩
  faults : ∀ fault, answer = .error fault
    → fault = .empty ∨ (∃ y, fault = .ragged y) ∨ ∃ c p, fault = .badChar c p
  nav : ∀ reason, answer ≠ .error (.nav reason)

theorem verdict_ofRows (filled : ∀ row ∈ rows, row ≠ []) (short : rows.length < 2147483648)
    (narrow : ∀ row ∈ rows, row.length < 2147483648)
    : Verdict rows (ofRows rows) := by
  have refused (fault : ReadFault) : ofRows rows = .error fault ↔ _ :=
    ofRows_eq_error filled short narrow
  simp only [rowFault?_eq_some] at refused
  constructor
  · simp [refused]
  · exact exists_ofRows_iff filled short narrow
  · intro y
    simp [refused]
  · intro c p
    rw [refused]
    constructor
    · rintro (⟨_, other⟩ | ⟨y, row, first, ⟨_, other⟩ | ⟨wide, x, d, unknown, same⟩⟩)
      · cases other
      · cases other
      · cases same
        exact ⟨x, y, row, first, wide, unknown, rfl⟩
    · rintro ⟨x, y, row, first, wide, unknown, rfl⟩
      exact .inr ⟨y, row, first, .inr ⟨wide, x, c, unknown, rfl⟩⟩
  · intro fault answer
    rcases (refused fault).mp answer with ⟨_, rfl⟩ | ⟨y, _, _, ⟨_, rfl⟩ | ⟨_, x, c, _, rfl⟩⟩
    · exact .inl rfl
    · exact .inr (.inl ⟨y, rfl⟩)
    · exact .inr (.inr ⟨c, _, rfl⟩)
  · intro reason
    simp [refused]

/-- What is read from a text is determined by what is left of its lines without the blanks around
them, apart from blank lines, as long as there are not too many rows or columns for a map: the map
that they draw, or the first fault from the top and, within a row, from the left.
-/
theorem read_verdict {text : String}
    (short : (Text.trimmedLines text.toList).length < 2147483648)
    (narrow : ∀ row ∈ Text.trimmedLines text.toList, row.length < 2147483648)
    : (∃ lines inners,
        ['\n'].intercalate lines = text.toList
        ∧ (∀ l ∈ lines, '\n' ∉ l)
        ∧ List.Forall₂ Text.Trims lines inners
        ∧ Text.trimmedLines text.toList = inners.filter fun l => !l.isEmpty)
      ∧ Verdict (Text.trimmedLines text.toList) (read text) := by
  have filled : ∀ row ∈ Text.trimmedLines text.toList, row ≠ [] := by
    intro row line
    simpa using (List.mem_filter.mp line).2
  exact ⟨Text.exists_trimmedLines text.toList, verdict_ofRows filled short narrow⟩

/-- A drawing with a letter behind a wide blank in the second row, above a row that is too short. -/
def blotted : String :=
  "#.\r\n \n\u3000.é\n."

theorem read_verdict_blotted
    : Text.trimmedLines blotted.toList = [['#', '.'], ['.', 'é'], ['.']]
      ∧ (Text.trimmedLines blotted.toList).length < 2147483648
      ∧ (∀ row ∈ Text.trimmedLines blotted.toList, row.length < 2147483648)
      ∧ read blotted = .error (.badChar 'é' ⟨1, 1⟩) := by
  have rows : Text.trimmedLines blotted.toList = [['#', '.'], ['.', 'é'], ['.']] := by
    decide +kernel
  have short : (Text.trimmedLines blotted.toList).length < 2147483648 := by
    rw [rows]
    decide
  have narrow : ∀ row ∈ Text.trimmedLines blotted.toList, row.length < 2147483648 := by
    rw [rows]
    decide
  obtain ⟨_, verdict⟩ := read_verdict short narrow
  rw [rows] at verdict
  have reported := verdict.badChar 'é' ⟨1, 1⟩
  refine ⟨rows, short, narrow, reported.mpr ⟨1, 1, ['.', 'é'], ?_, rfl, ?_, rfl⟩⟩
  · refine ⟨rfl, by decide, fun j above row line => ?_⟩
    obtain rfl := Nat.lt_one_iff.mp above
    cases line
    decide
  · refine ⟨rfl, by decide, fun j left c place => ?_⟩
    obtain rfl := Nat.lt_one_iff.mp left
    cases place
    decide

end Drawing

end Wayfinding
