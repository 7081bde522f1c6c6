import Wayfinding.Text.Printable

/-!
A character in quotes. Some characters have an escape of their own, and those that show nothing
are given by their number.
-/

namespace Wayfinding.Text

/-- The digits of a number in base sixteen, in lower case. -/
def hexDigits (n : Nat) : List Char :=
  Nat.toDigits 16 n

/-- A character as it stands between quotes. -/
def escaped (c : Char) : String :=
  if c = '\x00' then "\\0"
  else if c = '\t' then "\\t"
  else if c = '\r' then "\\r"
  else if c = '\n' then "\\n"
  else if c = '\'' then "\\'"
  else if c = '\\' then "\\\\"
  else if printable c then c.toString
  else "\\u\x7b" ++ String.ofList (hexDigits c.toNat) ++ "\x7d"

/-- A character in quotes. -/
def quoted (c : Char) : String :=
  "'" ++ escaped c ++ "'"

end Wayfinding.Text
