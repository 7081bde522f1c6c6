import Wayfinding.Decimal.Digits

/-!
JSON values as they are written: numbers by their digits and strings with their escapes.
-/

namespace Wayfinding.Json

/-- A number by its digits: the whole part, those after the point, and the power of ten that the
whole is multiplied by. Without a point or an exponent the number is an integer.
-/
structure Number where
  negative : Bool
  whole : List Nat
  fraction : List Nat
  exponent : Option Int
deriving DecidableEq

/-- A JSON value. Strings and names are the characters between their quotes. -/
inductive Value where
  | null
  | bool (b : Bool)
  | number (n : Number)
  | string (raw : List Char)
  | array (elements : List Value)
  | object (members : List (List Char × Value))

/-- A number in writing. An exponent has a sign in either case. -/
def Number.chars (n : Number) : List Char :=
  (if n.negative then ['-'] else [])
    ++ n.whole.map Decimal.digitChar
    ++ (if n.fraction.isEmpty then [] else '.' :: n.fraction.map Decimal.digitChar)
    ++ match n.exponent with
      | none => []
      | some e => 'e' :: Decimal.signedChars e

mutual

/-- A value in writing, without a blank. -/
def Value.chars : Value → List Char
  | .null => ['n', 'u', 'l', 'l']
  | .bool true => ['t', 'r', 'u', 'e']
  | .bool false => ['f', 'a', 'l', 's', 'e']
  | .number n => n.chars
  | .string raw => '"' :: raw ++ ['"']
  | .array [] => ['[', ']']
  | .array (v :: vs) => '[' :: v.chars ++ elementsChars vs
  | .object [] => ['\x7b', '\x7d']
  | .object (m :: ms) => '\x7b' :: memberChars m ++ membersChars ms

/-- The elements of an array after its first, with the closing bracket. -/
def elementsChars : List Value → List Char
  | [] => [']']
  | v :: vs => ',' :: v.chars ++ elementsChars vs

/-- The members of an object after its first, with the closing brace. -/
def membersChars : List (List Char × Value) → List Char
  | [] => ['\x7d']
  | m :: ms => ',' :: memberChars m ++ membersChars ms

/-- A name in quotes and its value. -/
def memberChars : List Char × Value → List Char
  | (name, v) => '"' :: name ++ '"' :: ':' :: v.chars

end

/-- A value as a string. -/
def Value.text (v : Value) : String :=
  String.ofList v.chars

/-- An integer as a number. -/
def Number.ofInt (n : Int) : Number :=
  ⟨decide (n < 0), Decimal.natDigits n.natAbs, [], none⟩

/-- An integer as a value. -/
def Value.ofInt (n : Int) : Value :=
  .number (.ofInt n)

/-- An object with names that need no escape. -/
def Value.ofMembers (ms : List (String × Value)) : Value :=
  .object (ms.map fun (name, v) => (name.toList, v))

end Wayfinding.Json
