import Wayfinding.Proofs.Json.Numbers

/-! Values that are written can be read again, with enough steps for everything inside them. Three
steps for each character are enough.
-/

namespace Wayfinding.Json

variable {v : Value} {raw rest : List Char}

-----------------------------------------------------------------------------------------
-- Strings
-----------------------------------------------------------------------------------------

/-- Characters that stand for themselves between quotes. -/
def Plain (raw : List Char) : Prop :=
  ∀ c ∈ raw, c ≠ '"' ∧ c ≠ '\\' ∧ 32 ≤ c.toNat

/-- Plain characters are read up to the closing quote, by induction over them. -/
theorem takeString?_plain (plain : Plain raw) (rest : List Char)
    : takeString? (raw ++ '"' :: rest) = some (raw, rest) := by
  induction raw with
  | nil => rfl
  | cons c raw ih =>
      have later := ih fun d hd => plain d (List.mem_cons_of_mem c hd)
      obtain ⟨quote, slash, printable⟩ := plain c List.mem_cons_self
      have ordinary : ¬ (c = '\\' ∨ c.toNat < 32) := by
        rintro (same | control)
        · exact slash same
        · exact Nat.not_lt.mpr printable control
      rw [List.cons_append, takeString?]
      · rw [if_neg ordinary, later]
      · exact quote
      · exact fun _ _ _ _ _ same => absurd same slash
      · exact fun _ _ same => absurd same slash

/-- Plain characters stand for themselves, by induction over them. -/
theorem unescape?_plain (plain : Plain raw) : unescape? raw = some raw := by
  induction raw with
  | nil => rfl
  | cons c raw ih =>
      have later := ih fun d hd => plain d (List.mem_cons_of_mem c hd)
      obtain ⟨_, slash, _⟩ := plain c List.mem_cons_self
      rw [unescape?, later]
      · rfl
      all_goals
        intros
        contradiction

-----------------------------------------------------------------------------------------
-- Values
-----------------------------------------------------------------------------------------

/-- A value as it may be written: its numbers are well formed, and its strings and names plain. -/
inductive Value.WellFormed : Value → Prop
  | null : Value.WellFormed .null
  | bool (b : Bool) : Value.WellFormed (.bool b)
  | number {n : Number} (number : n.WellFormed) : Value.WellFormed (.number n)
  | string {raw : List Char} (plain : Plain raw) : Value.WellFormed (.string raw)
  | array {vs : List Value} (elements : ∀ v ∈ vs, v.WellFormed) : Value.WellFormed (.array vs)
  | object {ms : List (List Char × Value)} (names : ∀ m ∈ ms, Plain m.1)
    (values : ∀ m ∈ ms, m.2.WellFormed)
    : Value.WellFormed (.object ms)

/-- The value is read again from before any text that is apart, in three steps or more for each of
its characters.
-/
def Reads (v : Value) : Prop :=
  ∀ (k : Nat) (rest : List Char), 3 * v.chars.length ≤ k + 1 → Apart rest
    → takeValue? (k + 1) (v.chars ++ rest) = some (v, rest)

theorem apart_elementsChars (vs : List Value) (rest : List Char)
    : Apart (elementsChars vs ++ rest) := by
  cases vs <;> simp [elementsChars, Apart] <;> decide

theorem apart_membersChars (ms : List (List Char × Value)) (rest : List Char)
    : Apart (membersChars ms ++ rest) := by
  cases ms <;> simp [membersChars, Apart] <;> decide

/-- A number does not begin like any other value. -/
theorem takeValue?_number {n : Number} (wellFormed : n.WellFormed) (k : Nat)
    : takeValue? (k + 1) (n.chars ++ rest)
      = (takeNumber? (n.chars ++ rest)).map fun (n, rest) => (.number n, rest) := by
  obtain ⟨c, cs, chars, first⟩ := wellFormed.exists_head
  rw [chars]
  rcases first with rfl | ⟨d, small, rfl⟩
  · rfl
  · interval_cases d <;> rfl

/-- What can be read as a value does not begin with a closing bracket. -/
theorem Reads.skipBlanks_ne (reads : Reads v) (apart : Apart rest) (cs : List Char)
    : skipBlanks (v.chars ++ rest) ≠ ']' :: cs := by
  intro bracket
  have read := reads (3 * v.chars.length) rest (Nat.le_succ _) apart
  rw [takeValue?, bracket] at read
  cases read

/-- After an opening bracket come elements, unless the closing one follows. -/
theorem takeValue?_bracket (k : Nat) {cs : List Char} (unclosed : ∀ ds, skipBlanks cs ≠ ']' :: ds)
    : takeValue? (k + 1) ('[' :: cs)
      = (takeElements? k cs).map fun (vs, rest) => (.array vs, rest) := by
  have opening : skipBlanks ('[' :: cs) = '[' :: cs := rfl
  simp only [takeValue?, opening]

/-- The elements of an array are read up to the closing bracket, by induction over them. -/
theorem takeElements?_chars {vs : List Value} (reads : ∀ w ∈ v :: vs, Reads w) {k : Nat}
    (enough : 3 * (v.chars.length + (elementsChars vs).length) ≤ k + 2) (rest : List Char)
    : takeElements? (k + 2) (v.chars ++ (elementsChars vs ++ rest)) = some (v :: vs, rest) := by
  induction vs generalizing v k with
  | nil =>
      simp only [elementsChars, List.length_singleton] at enough
      have first := reads v List.mem_cons_self k _ (by omega) (apart_elementsChars [] rest)
      rw [takeElements?, first]
      rfl
  | cons w vs ih =>
      simp only [elementsChars, List.length_cons, List.length_append] at enough
      have first := reads v List.mem_cons_self k _ (by omega) (apart_elementsChars (w :: vs) rest)
      obtain ⟨k, rfl⟩ : ∃ j, k = j + 1 := ⟨k - 1, by omega⟩
      have others := ih (fun u hu => reads u (List.mem_cons_of_mem v hu)) (k := k) (by omega)
      have comma : skipBlanks (elementsChars (w :: vs) ++ rest)
          = ',' :: (w.chars ++ (elementsChars vs ++ rest)) := by
        rw [← List.append_assoc]
        rfl
      rw [takeElements?, first]
      simp only [comma, others]
      rfl

theorem length_memberChars (m : List Char × Value)
    : (memberChars m).length = m.1.length + m.2.chars.length + 3 := by
  obtain ⟨name, v⟩ := m
  simp [memberChars]
  omega

theorem skipBlanks_memberChars (m : List Char × Value) (rest : List Char)
    : skipBlanks (memberChars m ++ rest) = memberChars m ++ rest := by
  obtain ⟨name, v⟩ := m
  rfl

/-- After an opening brace come members where a name follows. -/
theorem takeValue?_brace (k : Nat) (m : List Char × Value) (rest : List Char)
    : takeValue? (k + 1) ('\x7b' :: (memberChars m ++ rest))
      = (takeMembers? k (memberChars m ++ rest)).map fun (ms, rest) => (.object ms, rest) := by
  obtain ⟨name, v⟩ := m
  rfl

/-- The name of a member stands in quotes before a colon and the value. -/
theorem takeMember?_chars {m : List Char × Value} (plain : Plain m.1) (reads : Reads m.2) {k : Nat}
    (enough : 3 * (memberChars m).length ≤ k + 2) (apart : Apart rest)
    : takeMember? (k + 2) (memberChars m ++ rest) = some (m, rest) := by
  rw [length_memberChars] at enough
  obtain ⟨name, v⟩ := m
  have quoted := takeString?_plain plain (':' :: (v.chars ++ rest))
  have value := reads k rest (by omega) apart
  have colon : skipBlanks (':' :: (v.chars ++ rest)) = ':' :: (v.chars ++ rest) := rfl
  simp only [memberChars, List.cons_append, List.append_assoc, takeMember?, quoted, colon, value]
  rfl

/-- The members of an object are read up to the closing brace, by induction over them. -/
theorem takeMembers?_chars {m : List Char × Value} {ms : List (List Char × Value)}
    (names : ∀ o ∈ m :: ms, Plain o.1) (reads : ∀ o ∈ m :: ms, Reads o.2) {k : Nat}
    (enough : 3 * ((memberChars m).length + (membersChars ms).length) ≤ k + 3) (rest : List Char)
    : takeMembers? (k + 3) (memberChars m ++ (membersChars ms ++ rest)) = some (m :: ms, rest) := by
  induction ms generalizing m k with
  | nil =>
      simp only [membersChars, List.length_singleton] at enough
      have first := takeMember?_chars (names m List.mem_cons_self) (reads m List.mem_cons_self)
        (k := k) (by omega) (apart_membersChars [] rest)
      rw [takeMembers?, skipBlanks_memberChars, first]
      rfl
  | cons o ms ih =>
      simp only [membersChars, List.length_cons, List.length_append] at enough
      have first := takeMember?_chars (names m List.mem_cons_self) (reads m List.mem_cons_self)
        (k := k) (by omega) (apart_membersChars (o :: ms) rest)
      have longer := length_memberChars m
      obtain ⟨k, rfl⟩ : ∃ j, k = j + 1 := ⟨k - 1, by omega⟩
      have others := ih (fun u hu => names u (List.mem_cons_of_mem m hu))
        (fun u hu => reads u (List.mem_cons_of_mem m hu)) (k := k) (by omega)
      have comma : skipBlanks (membersChars (o :: ms) ++ rest)
          = ',' :: (memberChars o ++ (membersChars ms ++ rest)) := by
        rw [← List.append_assoc]
        rfl
      rw [takeMembers?, skipBlanks_memberChars, first]
      simp only [comma, others]
      rfl

/-- Every well formed value is read again, by induction over the value. -/
theorem Value.WellFormed.reads (wellFormed : v.WellFormed) : Reads v := by
  induction wellFormed with
  | null => exact fun _ _ _ _ => rfl
  | bool b => cases b <;> exact fun _ _ _ _ => rfl
  | number number =>
      intro k rest _ apart
      rw [Value.chars, takeValue?_number number, takeNumber?_chars number apart]
      rfl
  | @string raw plain =>
      intro k rest _ _
      have quoted := takeString?_plain plain rest
      have opening : skipBlanks ('"' :: (raw ++ '"' :: rest)) = '"' :: (raw ++ '"' :: rest) := rfl
      simp only [Value.chars, List.cons_append, List.append_assoc, List.nil_append, takeValue?,
        opening, quoted]
      rfl
  | @array vs _ ih =>
      intro k rest enough _
      cases vs with
      | nil => rfl
      | cons v vs =>
          simp only [Value.chars, List.length_cons, List.length_append] at enough
          obtain ⟨k, rfl⟩ : ∃ j, k = j + 2 := ⟨k - 2, by omega⟩
          have elements := takeElements?_chars ih (k := k) (by omega) rest
          have unclosed := (ih v List.mem_cons_self).skipBlanks_ne (apart_elementsChars vs rest)
          simp only [Value.chars, List.cons_append, List.append_assoc,
            takeValue?_bracket _ unclosed, elements]
          rfl
  | @object ms names _ ih =>
      intro k rest enough _
      cases ms with
      | nil => rfl
      | cons m ms =>
          simp only [Value.chars, List.length_cons, List.length_append] at enough
          have longer := length_memberChars m
          obtain ⟨k, rfl⟩ : ∃ j, k = j + 3 := ⟨k - 3, by omega⟩
          have members := takeMembers?_chars names ih (k := k) (by omega) rest
          simp only [Value.chars, List.cons_append, List.append_assoc, takeValue?_brace, members]
          rfl

/-- A text that holds a well formed value and nothing else is read as the value. -/
theorem take?_chars (wellFormed : v.WellFormed) : take? v.chars = some (v, []) := by
  have read := wellFormed.reads (3 * v.chars.length + 2) [] (by omega) apart_nil
  rwa [List.append_nil] at read

end Wayfinding.Json
