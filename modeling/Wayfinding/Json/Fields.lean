import Wayfinding.Json.Reader

/-!
Records as JSON values. A record with named fields is read from an object, whose members may come
in any order and may include others, or from an array with the fields in their own order. A field
may be missing, and then the record decides; it may not be given twice.
-/

namespace Wayfinding.Json

/-- The members of an object with their names in plain characters. -/
def plainMembers? (members : List (List Char × Value)) : Option (List (List Char × Value)) :=
  members.mapM fun (raw, v) => (unescape? raw).map fun name => (name, v)

/-- The values that are given for a name. -/
def valuesOf (name : String) (members : List (List Char × Value)) : List Value :=
  members.filterMap fun (n, v) => if n = name.toList then some v else none

/-- The only value that is given for a name, if any, unless there are several. -/
def onlyValue? (name : String) (members : List (List Char × Value)) : Option (Option Value) :=
  match valuesOf name members with
  | [] => some none
  | [v] => some (some v)
  | _ => none

/-- What is given for each field of a record. -/
def fields? (names : List String) : Value → Option (List (Option Value))
  | .array vs =>
      if vs.length ≤ names.length then
        some (vs.map some ++ List.replicate (names.length - vs.length) none)
      else none
  | .object members => do
      let members ← plainMembers? members
      names.mapM fun name => onlyValue? name members
  | _ => none

/-- A field that has to be given. -/
def required? (read : Value → Option α) : Option Value → Option α
  | some v => read v
  | none => none

/-- A field with a value for the case that it is not given. -/
def optional? (absent : α) (read : Value → Option α) : Option Value → Option α
  | some v => read v
  | none => some absent

/-- A truth value. -/
def bool? : Value → Option Bool
  | .bool b => some b
  | _ => none

/-- The elements of an array. -/
def list? (read : Value → Option α) : Value → Option (List α)
  | .array vs => vs.mapM read
  | _ => none

end Wayfinding.Json
