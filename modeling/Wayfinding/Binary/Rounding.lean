/-!
Rounding to a binary floating-point format, in exact arithmetic. A positive value is `m · 2^e`
with a whole `m`; a format bounds the bits of `m` and the range of `e`. `Format.round?` takes
any fraction to the nearest value of a format, a tie to the even neighbour.
-/

namespace Wayfinding.Binary

/-- The non-negative number `mantissa · 2^exponent`. -/
structure Dyadic where
  mantissa : Nat
  exponent : Int
deriving DecidableEq

/-- A binary format by the bits of its mantissa and the least and greatest exponent of the
mantissa's last bit.
-/
structure Format where
  precision : Nat
  least : Int
  greatest : Int

/-- The format with a mantissa of 24 bits, in 32 bits altogether. -/
def Format.single : Format :=
  ⟨24, -149, 104⟩

/-- The format with a mantissa of 53 bits, in 64 bits altogether. -/
def Format.double : Format :=
  ⟨53, -1074, 971⟩

/-- The whole number nearest to `n / d`, and of two equally near ones the even one. -/
def divideToEven (n d : Nat) : Nat :=
  let q := n / d
  let r := n % d
  if 2 * r < d then q
  else if d < 2 * r then q + 1
  else q + q % 2

/-- A fraction equal to `n / d · 2^shift`. -/
def shiftFraction (n d : Nat) (shift : Int) : Nat × Nat :=
  (n * Nat.pow 2 shift.toNat, d * Nat.pow 2 (-shift).toNat)

/-- The exponent at which `n / d · 2^shift` fills the mantissa, not below the format's least.
The difference of two binary logarithms is at most one too large.
-/
def Format.exponentFor (f : Format) (n d : Nat) (shift : Int) : Int :=
  let e := (n.log2 : Int) - d.log2 + shift - f.precision
  let (a, b) := shiftFraction n d (shift - e)
  max f.least (if a < b * Nat.pow 2 f.precision then e else e + 1)

/-- The value of the format nearest to `n / d · 2^shift`, and `none` where that lies beyond the
greatest one.
-/
def Format.round? (f : Format) (n d : Nat) (shift : Int) : Option Dyadic :=
  if n = 0 then some ⟨0, f.least⟩
  else
    let e := f.exponentFor n d shift
    let (a, b) := shiftFraction n d (shift - e)
    let m := divideToEven a b
    let r : Dyadic :=
      if m = Nat.pow 2 f.precision then ⟨Nat.pow 2 (f.precision - 1), e + 1⟩ else ⟨m, e⟩
    if r.exponent ≤ f.greatest then some r else none

end Wayfinding.Binary
