import Wayfinding.Json.Value

/-!
Reading JSON values. A reader answers with what stands first in a text and the rest of the text,
or with nothing where the text does not begin with such a thing. Blanks are spaces, tabs, line
feeds and carriage returns.
-/

namespace Wayfinding.Json

/-- The character may stand between the parts of a value. -/
def isBlank (c : Char) : Bool :=
  c == ' ' || c == '\t' || c == '\n' || c == '\r'

/-- The text without the blanks at its beginning. -/
def skipBlanks (cs : List Char) : List Char :=
  cs.dropWhile isBlank

/-- The digits at the beginning of a text and the rest. -/
def takeDigits : List Char → List Nat × List Char
  | [] => ([], [])
  | c :: cs =>
      match Decimal.digit? c with
      | none => ([], c :: cs)
      | some d =>
          let (ds, rest) := takeDigits cs
          (d :: ds, rest)

/-- The digits of the whole part: one zero, or digits that do not begin with a zero. -/
def takeWhole? (cs : List Char) : Option (List Nat × List Char) :=
  match takeDigits cs with
  | ([], _) => none
  | ([d], rest) => some ([d], rest)
  | (0 :: _, _) => none
  | (ds, rest) => some (ds, rest)

/-- The digits after a point, if there is a point. -/
def takeFraction? : List Char → Option (List Nat × List Char)
  | '.' :: cs =>
      match takeDigits cs with
      | ([], _) => none
      | (ds, rest) => some (ds, rest)
  | cs => some ([], cs)

/-- The digits of an exponent after its mark and sign. -/
def takePower? (negative : Bool) (cs : List Char) : Option (Option Int × List Char) :=
  match takeDigits cs with
  | ([], _) => none
  | (ds, rest) =>
      let n : Int := Decimal.ofDigits 0 ds
      some (some (if negative then -n else n), rest)

/-- The exponent after its mark. -/
def takeSignedPower? : List Char → Option (Option Int × List Char)
  | '+' :: cs => takePower? false cs
  | '-' :: cs => takePower? true cs
  | cs => takePower? false cs

/-- The exponent, if there is a mark for one. -/
def takeExponent? : List Char → Option (Option Int × List Char)
  | 'e' :: cs => takeSignedPower? cs
  | 'E' :: cs => takeSignedPower? cs
  | cs => some (none, cs)

/-- A number without its sign. -/
def takeUnsigned? (negative : Bool) (cs : List Char) : Option (Number × List Char) := do
  let (whole, cs) ← takeWhole? cs
  let (fraction, cs) ← takeFraction? cs
  let (exponent, cs) ← takeExponent? cs
  return (⟨negative, whole, fraction, exponent⟩, cs)

/-- A number. -/
def takeNumber? : List Char → Option (Number × List Char)
  | '-' :: cs => takeUnsigned? true cs
  | cs => takeUnsigned? false cs

/-- The value of a character that is a digit in base sixteen. -/
def hexDigit? (c : Char) : Option Nat :=
  if '0' ≤ c ∧ c ≤ '9' then some (c.toNat - 48)
  else if 'a' ≤ c ∧ c ≤ 'f' then some (c.toNat - 87)
  else if 'A' ≤ c ∧ c ≤ 'F' then some (c.toNat - 55)
  else none

/-- The value of four digits in base sixteen. -/
def hexWord? (a b c d : Char) : Option Nat := do
  return (((← hexDigit? a) * 16 + (← hexDigit? b)) * 16 + (← hexDigit? c)) * 16 + (← hexDigit? d)

/-- The character that a letter after a backslash stands for. -/
def escape? : Char → Option Char
  | '"' => some '"'
  | '\\' => some '\\'
  | '/' => some '/'
  | 'b' => some '\x08'
  | 'f' => some '\x0c'
  | 'n' => some '\n'
  | 'r' => some '\r'
  | 't' => some '\t'
  | _ => none

/-- The characters up to the closing quote, as they are written. Escapes have to be well formed and
control characters may not stand there.
-/
def takeString? : List Char → Option (List Char × List Char)
  | [] => none
  | '"' :: cs => some ([], cs)
  | '\\' :: 'u' :: a :: b :: c :: d :: cs =>
      match hexWord? a b c d, takeString? cs with
      | some _, some (raw, rest) => some ('\\' :: 'u' :: a :: b :: c :: d :: raw, rest)
      | _, _ => none
  | '\\' :: e :: cs =>
      match escape? e, takeString? cs with
      | some _, some (raw, rest) => some ('\\' :: e :: raw, rest)
      | _, _ => none
  | c :: cs =>
      if c = '\\' ∨ c.toNat < 32 then none
      else
        match takeString? cs with
        | some (raw, rest) => some (c :: raw, rest)
        | none => none

/-- The characters that a written string stands for, unless one half of a surrogate pair stands
alone in it.
-/
def unescape? : List Char → Option (List Char)
  | [] => some []
  | '\\' :: 'u' :: a :: b :: c :: d :: '\\' :: 'u' :: p :: q :: r :: s :: cs =>
      match hexWord? a b c d, hexWord? p q r s with
      | some high, some low =>
          if 0xD800 ≤ high ∧ high < 0xDC00 then
            if 0xDC00 ≤ low ∧ low < 0xE000 then
              (unescape? cs).map
                (Char.ofNat (0x10000 + (high - 0xD800) * 0x400 + (low - 0xDC00)) :: ·)
            else none
          else if 0xDC00 ≤ high ∧ high < 0xE000 then none
          else (unescape? ('\\' :: 'u' :: p :: q :: r :: s :: cs)).map (Char.ofNat high :: ·)
      | _, _ => none
  | '\\' :: 'u' :: a :: b :: c :: d :: cs =>
      match hexWord? a b c d with
      | some n => if 0xD800 ≤ n ∧ n < 0xE000 then none else (unescape? cs).map (Char.ofNat n :: ·)
      | none => none
  | '\\' :: e :: cs =>
      match escape? e with
      | some c => (unescape? cs).map (c :: ·)
      | none => none
  | c :: cs => (unescape? cs).map (c :: ·)

mutual

/-- A value after any blanks. Every level of nesting takes up a character, so the length of the
text bounds the depth.
-/
def takeValue? : Nat → List Char → Option (Value × List Char)
  | 0, _ => none
  | depth + 1, cs =>
      match skipBlanks cs with
      | 'n' :: 'u' :: 'l' :: 'l' :: rest => some (.null, rest)
      | 't' :: 'r' :: 'u' :: 'e' :: rest => some (.bool true, rest)
      | 'f' :: 'a' :: 'l' :: 's' :: 'e' :: rest => some (.bool false, rest)
      | '"' :: rest => (takeString? rest).map fun (raw, rest) => (.string raw, rest)
      | '[' :: rest =>
          match skipBlanks rest with
          | ']' :: rest => some (.array [], rest)
          | _ => (takeElements? depth rest).map fun (vs, rest) => (.array vs, rest)
      | '\x7b' :: rest =>
          match skipBlanks rest with
          | '\x7d' :: rest => some (.object [], rest)
          | _ => (takeMembers? depth rest).map fun (ms, rest) => (.object ms, rest)
      | cs => (takeNumber? cs).map fun (n, rest) => (.number n, rest)

/-- The elements of an array that is not empty, up to its closing bracket. -/
def takeElements? : Nat → List Char → Option (List Value × List Char)
  | 0, _ => none
  | depth + 1, cs =>
      match takeValue? depth cs with
      | none => none
      | some (v, rest) =>
          match skipBlanks rest with
          | ',' :: rest => (takeElements? depth rest).map fun (vs, rest) => (v :: vs, rest)
          | ']' :: rest => some ([v], rest)
          | _ => none

/-- The members of an object that is not empty, up to its closing brace. -/
def takeMembers? : Nat → List Char → Option (List (List Char × Value) × List Char)
  | 0, _ => none
  | depth + 1, cs =>
      match takeMember? depth (skipBlanks cs) with
      | none => none
      | some (m, rest) =>
          match skipBlanks rest with
          | ',' :: rest => (takeMembers? depth rest).map fun (ms, rest) => (m :: ms, rest)
          | '\x7d' :: rest => some ([m], rest)
          | _ => none

/-- A name in quotes, a colon and a value. -/
def takeMember? : Nat → List Char → Option ((List Char × Value) × List Char)
  | 0, _ => none
  | depth + 1, '"' :: cs =>
      match takeString? cs with
      | none => none
      | some (name, rest) =>
          match skipBlanks rest with
          | ':' :: rest => (takeValue? depth rest).map fun (v, rest) => ((name, v), rest)
          | _ => none
  | _ + 1, _ => none

end

/-- The value at the beginning of a text and the rest. A value and everything inside it takes up
fewer steps than three for each character.
-/
def take? (cs : List Char) : Option (Value × List Char) :=
  takeValue? (3 * cs.length + 3) cs

/-- A text holds nothing more than blanks. -/
def atEnd (cs : List Char) : Bool :=
  (skipBlanks cs).isEmpty

end Wayfinding.Json
