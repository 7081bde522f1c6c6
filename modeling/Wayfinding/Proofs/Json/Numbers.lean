import Mathlib.Tactic.IntervalCases
import Wayfinding.Json.Number
import Wayfinding.Json.Reader

/-! Numbers that are written can be read again. What follows a number in a text must not go on with
it: the digits end where the first other character stands.
-/

namespace Wayfinding

namespace Decimal

theorem digit?_digitChar {d : Nat} (h : d < 10) : digit? (digitChar d) = some d := by
  interval_cases d <;> rfl

theorem natDigits_ne_nil (n : Nat) : natDigits n ≠ [] := by
  rw [natDigits]
  split <;> simp

/-- Only zero is written with a zero in front, by induction along the digits. -/
theorem eq_zero_of_lead {n : Nat} (lead : (natDigits n).head? = some 0) : n = 0 := by
  fun_induction natDigits n with
  | case1 n small => simpa using lead
  | case2 n large ih =>
      rw [List.head?_append] at lead
      cases first : (natDigits (n / 10)).head? with
      | none => exact absurd (List.head?_eq_none_iff.mp first) (natDigits_ne_nil _)
      | some d =>
          rw [first] at ih lead
          have before := ih lead
          omega

theorem natDigits_lead {n : Nat} (lead : (natDigits n).head? = some 0) : natDigits n = [0] := by
  obtain rfl := eq_zero_of_lead lead
  rw [natDigits, if_pos (by decide)]

end Decimal

namespace Json

variable {n : Number} {ds : List Nat} {rest : List Char}

-----------------------------------------------------------------------------------------
-- Digits
-----------------------------------------------------------------------------------------

/-- The text does not go on with a number. -/
def Apart (rest : List Char) : Prop :=
  ∀ c ∈ rest.head?, Decimal.digit? c = none ∧ c ≠ '.' ∧ c ≠ 'e' ∧ c ≠ 'E'

theorem apart_nil : Apart [] := by
  simp [Apart]

/-- Digits are read up to the first other character, by induction over the digits. -/
theorem takeDigits_map (small : ∀ d ∈ ds, d < 10)
    (ends : ∀ c ∈ rest.head?, Decimal.digit? c = none)
    : takeDigits (ds.map Decimal.digitChar ++ rest) = (ds, rest) := by
  induction ds with
  | nil =>
      cases rest with
      | nil => rfl
      | cons c rest =>
          have other := ends c rfl
          simp only [List.map_nil, List.nil_append, takeDigits, other]
  | cons d ds ih =>
      have later := ih fun e he => small e (List.mem_cons_of_mem d he)
      have first := Decimal.digit?_digitChar (small d List.mem_cons_self)
      simp only [List.map_cons, List.cons_append, takeDigits, first, later]

/-- A number as it may be written: there is a digit before the point, and no zero stands in front
of others.
-/
structure Number.WellFormed (n : Number) : Prop where
  digits : ∀ d ∈ n.whole ++ n.fraction, d < 10
  whole : n.whole ≠ []
  lead : n.whole.head? = some 0 → n.whole = [0]

-----------------------------------------------------------------------------------------
-- Parts of a number
-----------------------------------------------------------------------------------------

theorem takeWhole?_map (small : ∀ d ∈ ds, d < 10) (nonempty : ds ≠ [])
    (lead : ds.head? = some 0 → ds = [0]) (ends : ∀ c ∈ rest.head?, Decimal.digit? c = none)
    : takeWhole? (ds.map Decimal.digitChar ++ rest) = some (ds, rest) := by
  rw [takeWhole?, takeDigits_map small ends]
  cases ds with
  | nil => exact absurd rfl nonempty
  | cons d ds =>
      cases ds with
      | nil => rfl
      | cons e ds =>
          cases d with
          | zero => cases lead rfl
          | succ d => rfl

theorem takeFraction?_map (small : ∀ d ∈ ds, d < 10)
    (ends : ∀ c ∈ rest.head?, Decimal.digit? c = none ∧ c ≠ '.')
    : takeFraction? ((if ds.isEmpty then [] else '.' :: ds.map Decimal.digitChar) ++ rest)
      = some (ds, rest) := by
  cases ds with
  | nil =>
      cases rest with
      | nil => rfl
      | cons c rest =>
          have other := (ends c rfl).2
          simp only [List.isEmpty_nil, if_true, List.nil_append]
          rw [takeFraction?]
          rintro cs ⟨⟩
          exact other rfl
  | cons d ds =>
      have digits := takeDigits_map small fun c hc => (ends c hc).1
      simp only [List.isEmpty_cons, Bool.false_eq_true, if_false, List.cons_append, takeFraction?,
        digits]

/-- The mark of an exponent and the exponent, if there is one. -/
def powerChars : Option Int → List Char
  | none => []
  | some e => 'e' :: Decimal.signedChars e

theorem takePower?_natChars (negative : Bool) (k : Nat)
    (ends : ∀ c ∈ rest.head?, Decimal.digit? c = none)
    : takePower? negative (Decimal.natChars k ++ rest)
      = some (some (if negative then -(k : Int) else k), rest) := by
  have digits := takeDigits_map (fun d => Decimal.natDigits_lt (n := k)) ends
  have value := Decimal.ofDigits_natDigits k
  have nonempty := Decimal.natDigits_ne_nil k
  rw [takePower?, Decimal.natChars, digits]
  cases written : Decimal.natDigits k with
  | nil => exact absurd written nonempty
  | cons d ds =>
      rw [written] at value
      simp only [value]

theorem takeExponent?_powerChars (exponent : Option Int) (apart : Apart rest)
    : takeExponent? (powerChars exponent ++ rest) = some (exponent, rest) := by
  have ends (c : Char) (hc : c ∈ rest.head?) : Decimal.digit? c = none := (apart c hc).1
  cases exponent with
  | none =>
      cases rest with
      | nil => rfl
      | cons c rest =>
          obtain ⟨_, _, small, capital⟩ := apart c rfl
          rw [powerChars, List.nil_append, takeExponent?]
          · rintro cs ⟨⟩
            exact small rfl
          · rintro cs ⟨⟩
            exact capital rfl
  | some e =>
      cases e with
      | ofNat k =>
          have power := takePower?_natChars false k ends
          simpa [powerChars, Decimal.signedChars, takeExponent?, takeSignedPower?] using power
      | negSucc k =>
          have power := takePower?_natChars true (k + 1) ends
          rw [if_pos rfl, Int.natCast_succ, ← Int.negSucc_eq] at power
          simpa [powerChars, Decimal.signedChars, takeExponent?, takeSignedPower?] using power

-----------------------------------------------------------------------------------------
-- Whole numbers in writing
-----------------------------------------------------------------------------------------

/-- The sign, the digits and the exponent of a number, one after the other. -/
theorem Number.chars_eq (n : Number)
    : n.chars
      = (if n.negative then ['-'] else [])
        ++ (n.whole.map Decimal.digitChar
          ++ ((if n.fraction.isEmpty then [] else '.' :: n.fraction.map Decimal.digitChar)
            ++ powerChars n.exponent)) := by
  rw [Number.chars, List.append_assoc, List.append_assoc]
  cases n.exponent <;> rfl

theorem digit?_point : Decimal.digit? '.' = none := by
  decide

theorem digit?_mark : Decimal.digit? 'e' = none := by
  decide

/-- An exponent or nothing at all ends the digits before it. -/
theorem head?_powerChars (exponent : Option Int) (apart : Apart rest)
    : ∀ c ∈ (powerChars exponent ++ rest).head?, Decimal.digit? c = none ∧ c ≠ '.' := by
  cases exponent with
  | none => exact fun c hc => ⟨(apart c hc).1, (apart c hc).2.1⟩
  | some => simp [powerChars, digit?_mark]

/-- What follows the whole part ends its digits. -/
theorem head?_fraction (ds : List Nat) (exponent : Option Int) (apart : Apart rest)
    : ∀ c ∈ ((if ds.isEmpty then [] else '.' :: ds.map Decimal.digitChar)
        ++ (powerChars exponent ++ rest)).head?, Decimal.digit? c = none := by
  cases ds with
  | nil => exact fun c hc => (head?_powerChars exponent apart c hc).1
  | cons => simp [digit?_point]

theorem takeUnsigned?_chars (wellFormed : n.WellFormed) (apart : Apart rest)
    : takeUnsigned? n.negative (n.whole.map Decimal.digitChar
        ++ ((if n.fraction.isEmpty then [] else '.' :: n.fraction.map Decimal.digitChar)
          ++ (powerChars n.exponent ++ rest)))
      = some (n, rest) := by
  obtain ⟨digits, nonempty, lead⟩ := wellFormed
  have whole := takeWhole?_map (fun d hd => digits d (List.mem_append_left _ hd)) nonempty lead
    (head?_fraction n.fraction n.exponent apart)
  have fraction := takeFraction?_map (fun d hd => digits d (List.mem_append_right _ hd))
    (head?_powerChars n.exponent apart)
  have exponent := takeExponent?_powerChars n.exponent apart
  simp only [takeUnsigned?, whole, fraction, exponent, Option.bind_eq_bind, Option.bind_some]
  rfl

/-- The first character of a number is a minus sign or a digit. -/
theorem Number.WellFormed.exists_head (wellFormed : n.WellFormed)
    : ∃ c cs, n.chars = c :: cs ∧ (c = '-' ∨ ∃ d < 10, c = Decimal.digitChar d) := by
  rw [Number.chars_eq]
  cases n.negative with
  | true => exact ⟨'-', _, rfl, Or.inl rfl⟩
  | false =>
      cases whole : n.whole with
      | nil => exact absurd whole wellFormed.whole
      | cons d ds =>
          have small := wellFormed.digits d (by simp [whole])
          exact ⟨_, _, rfl, Or.inr ⟨d, small, rfl⟩⟩

/-- A number that is written is read again. -/
theorem takeNumber?_chars (wellFormed : n.WellFormed) (apart : Apart rest)
    : takeNumber? (n.chars ++ rest) = some (n, rest) := by
  have unsigned := takeUnsigned?_chars wellFormed apart
  rw [Number.chars_eq]
  simp only [List.append_assoc]
  cases negative : n.negative with
  | true =>
      rw [negative] at unsigned
      exact unsigned
  | false =>
      rw [negative] at unsigned
      simp only [Bool.false_eq_true, if_false, List.nil_append]
      rw [takeNumber?]
      · exact unsigned
      · intro cs minus
        cases whole : n.whole with
        | nil => exact wellFormed.whole whole
        | cons d ds =>
            have small := wellFormed.digits d (by simp [whole])
            rw [whole, List.map_cons, List.cons_append] at minus
            have first : Decimal.digitChar d = '-' := (List.cons.inj minus).1
            have digit := Decimal.digit?_digitChar small
            rw [first] at digit
            cases digit

-----------------------------------------------------------------------------------------
-- Integers
-----------------------------------------------------------------------------------------

theorem Number.wellFormed_ofInt (k : Int) : (Number.ofInt k).WellFormed := by
  refine ⟨?_, Decimal.natDigits_ne_nil _, ?_⟩
  · intro d hd
    exact Decimal.natDigits_lt (by simpa [Number.ofInt] using hd)
  · exact Decimal.natDigits_lead

/-- An integer of 32 bits is read as itself. -/
theorem Number.toInt32?_ofInt {k : Int} (fits : InInt32 k) : (Number.ofInt k).toInt32? = some k := by
  have value := Decimal.ofDigits_natDigits k.natAbs
  simp only [Number.toInt32?, Number.ofInt, Number.integral, value]
  by_cases negative : k < 0
  · have size : -|k| = k := by rw [abs_of_neg negative, Int.neg_neg]
    simp [negative, size, int32?_of_fits fits, Int.ne_of_lt negative]
  · have size : |k| = k := abs_of_nonneg (Int.not_lt.mp negative)
    simp [negative, size, int32?_of_fits fits]

-----------------------------------------------------------------------------------------
-- Single precision
-----------------------------------------------------------------------------------------

/-- The digits of a number, with a point after some of them. -/
private theorem wellFormed_take (negative : Bool) (k : Nat) {places : Nat} (positive : 0 < places)
    (exponent : Option Int)
    : (⟨negative, (Decimal.natDigits k).take places, (Decimal.natDigits k).drop places, exponent⟩
        : Number).WellFormed := by
  obtain ⟨places, rfl⟩ := Nat.exists_eq_succ_of_ne_zero (Nat.ne_of_gt positive)
  have lead := Decimal.natDigits_lead (n := k)
  have small (d : Nat) : d ∈ Decimal.natDigits k → d < 10 := Decimal.natDigits_lt
  cases digits : Decimal.natDigits k with
  | nil => exact absurd digits (Decimal.natDigits_ne_nil k)
  | cons d ds =>
      rw [digits] at lead small
      refine ⟨?_, by simp, ?_⟩
      · simpa only [List.take_append_drop] using small
      · intro zero
        simp [lead zero]

/-- A decimal is a well formed number unless zero is given a positive exponent. -/
theorem Number.wellFormed_ofDecimal (negative : Bool) {d : Decimal.Scaled}
    (zero : d.digits = 0 → d.exponent ≤ 0)
    : (Number.ofDecimal negative d).WellFormed := by
  have small (e : Nat) : e ∈ Decimal.natDigits d.digits → e < 10 := Decimal.natDigits_lt
  unfold Number.ofDecimal
  dsimp only
  split
  · rename_i large
    refine ⟨?_, by simp [Decimal.natDigits_ne_nil], ?_⟩
    · intro e he
      simp only [List.mem_append, List.mem_replicate, List.mem_singleton] at he
      rcases he with (digit | ⟨_, rfl⟩) | rfl
      · exact small e digit
      · decide
      · decide
    · intro lead
      rw [List.head?_append] at lead
      have first : (Decimal.natDigits d.digits).head? = some 0 := by
        cases digits : Decimal.natDigits d.digits with
        | nil => exact absurd digits (Decimal.natDigits_ne_nil _)
        | cons e es => simpa [digits] using lead
      have exponent : d.exponent = 0 :=
        Int.le_antisymm (zero (Decimal.eq_zero_of_lead first)) large.1
      simp [Decimal.natDigits_lead first, exponent]
  · split
    · rename_i inner
      exact wellFormed_take negative d.digits (by omega) none
    · split
      · refine ⟨?_, by simp, fun _ => rfl⟩
        intro e he
        simp only [List.mem_append, List.mem_replicate, List.mem_singleton] at he
        rcases he with rfl | ⟨_, rfl⟩ | digit
        · decide
        · decide
        · exact small e digit
      · exact wellFormed_take negative d.digits Nat.one_pos _

end Json

namespace Decimal

variable {i : Interval} {k : Nat} {exponent : Int}

/-- Zero is not in an interval of positive numbers. -/
theorem Interval.ne_zero_of_holds (positive : 0 < i.low) (holds : i.holds k exponent = true)
    : k ≠ 0 := by
  rintro rfl
  have scale : 0 < Nat.pow 10 (-exponent).toNat := Nat.pow_pos (by decide)
  have above := Nat.mul_pos positive scale
  unfold Interval.holds at holds
  simp only [scaleFraction, Nat.zero_mul, Nat.one_mul] at holds
  split at holds
  · have below := (of_decide_eq_true holds).1
    omega
  · have below := (of_decide_eq_true holds).1
    omega

/-- The multiple that is found lies in the interval. -/
theorem Interval.holds_of_nearest? (nearest : i.nearest? exponent = some k)
    : i.holds k exponent = true := by
  unfold Interval.nearest? at nearest
  grind

/-- So does the point of the coarsest grid, by induction over the exponents that are tried. -/
theorem Interval.holds_of_coarsest {tries : Nat} {d : Scaled}
    (coarsest : i.coarsest tries exponent = some d)
    : i.holds d.digits d.exponent = true ∧ d.exponent ≤ exponent := by
  induction tries generalizing exponent with
  | zero => cases coarsest
  | succ tries ih =>
      rw [Interval.coarsest] at coarsest
      split at coarsest
      · rename_i found
        cases coarsest
        exact ⟨holds_of_nearest? found, Int.le_refl _⟩
      · obtain ⟨holds, le⟩ := ih coarsest
        exact ⟨holds, by omega⟩

/-- The shortest decimal of a positive size does not give zero a positive exponent. -/
theorem shortest_of_zero {size : Binary.Dyadic} (positive : size.mantissa ≠ 0)
    (zero : (shortest size).digits = 0)
    : (shortest size).exponent ≤ 0 := by
  have low : 0 < (Interval.ofDyadic size).low := by
    have scale : 0 < Nat.pow 2 (size.exponent - 2).toNat := Nat.pow_pos (by decide)
    unfold Interval.ofDyadic
    dsimp only
    exact Nat.mul_pos (by split <;> omega) scale
  unfold shortest at zero ⊢
  cases found : (Interval.ofDyadic size).coarsest 90 39 with
  | none => exact Int.le_refl 0
  | some d =>
      rw [found] at zero
      exact absurd zero (Interval.ne_zero_of_holds low (Interval.holds_of_coarsest found).1)

end Decimal

namespace Json

/-- A single precision number is written as a well formed number or as null. -/
theorem Value.ofSingle_cases (x : Float32)
    : Value.ofSingle x = .null ∨ ∃ n : Number, n.WellFormed ∧ Value.ofSingle x = .number n := by
  unfold Value.ofSingle
  split
  · rename_i negative size _
    apply Or.inr
    split
    · refine ⟨_, ⟨?_, ?_, fun _ => rfl⟩, rfl⟩ <;> simp
    · rename_i positive
      exact ⟨_, Number.wellFormed_ofDecimal negative (Decimal.shortest_of_zero positive), rfl⟩
  · exact Or.inl rfl

end Json

end Wayfinding
