/-!
Whole numbers in decimal digits. `natDigits` writes a number without leading zeros and
`ofDigits` reads digits back: `ofDigits_natDigits` says that nothing is lost.
-/

namespace Wayfinding.Decimal

/-- The decimal digits of a number, most significant first, without leading zeros. -/
def natDigits (n : Nat) : List Nat :=
  if n < 10 then [n] else natDigits (n / 10) ++ [n % 10]
termination_by n
decreasing_by omega

/-- The number that a list of decimal digits stands for, after digits worth `acc`. -/
def ofDigits (acc : Nat) : List Nat → Nat
  | [] => acc
  | d :: ds => ofDigits (acc * 10 + d) ds

/-- The character of a decimal digit. -/
def digitChar (d : Nat) : Char :=
  Char.ofNat (48 + d)

/-- The value of a character that is a decimal digit. -/
def digit? (c : Char) : Option Nat :=
  if '0' ≤ c ∧ c ≤ '9' then some (c.toNat - 48) else none

/-- A whole number in writing. -/
def natChars (n : Nat) : List Char :=
  (natDigits n).map digitChar

/-- An integer in writing, with a minus sign if it is negative. -/
def intChars : Int → List Char
  | .ofNat n => natChars n
  | .negSucc n => '-' :: natChars (n + 1)

/-- An integer in writing, with a sign whether it is negative or not. -/
def signedChars : Int → List Char
  | .ofNat n => '+' :: natChars n
  | .negSucc n => '-' :: natChars (n + 1)

/-- A whole number as a string. -/
def ofNat (n : Nat) : String :=
  String.ofList (natChars n)

/-- An integer as a string. -/
def ofInt (n : Int) : String :=
  String.ofList (intChars n)

/-- Reading a list of digits and one more multiplies by ten and adds the last. -/
theorem ofDigits_append (acc : Nat) (ds es : List Nat)
    : ofDigits acc (ds ++ es) = ofDigits (ofDigits acc ds) es := by
  induction ds generalizing acc with
  | nil => rfl
  | cons d ds ih => exact ih _

/-- Reading the digits of a number gives the number back. -/
theorem ofDigits_natDigits (n : Nat) : ofDigits 0 (natDigits n) = n := by
  fun_induction natDigits n with
  | case1 n h => simp [ofDigits]
  | case2 n h ih =>
      rw [ofDigits_append, ih]
      simp only [ofDigits]
      omega

/-- Every digit that is written lies below ten. -/
theorem natDigits_lt {n d : Nat} (h : d ∈ natDigits n) : d < 10 := by
  fun_induction natDigits n with
  | case1 n hn => simp_all
  | case2 n hn ih =>
      rcases List.mem_append.mp h with h | h
      · exact ih h
      · have := List.mem_singleton.mp h
        omega

end Wayfinding.Decimal
