import Wayfinding.Json.Records
import Wayfinding.Proofs.Json.Values

/-! Records that are written as objects can be read again, field by field. A record brings the names
of its fields along: they are plain and all different.
-/

namespace Wayfinding

namespace Json

variable {α β : Type} {names : List String} {ms : List (String × Value)} {name : String} {v : Value}

/-- An action that succeeds on every element maps the list, by induction over it. -/
theorem mapM_eq_some_map {f : α → Option β} {g : α → β} {l : List α}
    (h : ∀ a ∈ l, f a = some (g a))
    : l.mapM f = some (l.map g) := by
  induction l with
  | nil => rfl
  | cons a l ih =>
      rw [List.mapM_cons, h a List.mem_cons_self, ih fun b hb => h b (List.mem_cons_of_mem a hb)]
      rfl

-----------------------------------------------------------------------------------------
-- Fields
-----------------------------------------------------------------------------------------

/-- The members of an object with the characters of their names. -/
def rawMembers (ms : List (String × Value)) : List (List Char × Value) :=
  ms.map fun (name, v) => (name.toList, v)

/-- The values of an object are found by these names, which are plain and all different. -/
structure Named (names : List String) (ms : List (String × Value)) : Prop where
  fst : ms.map Prod.fst = names
  plain : ∀ name ∈ names, Plain name.toList
  distinct : names.Nodup

theorem Named.plain_of_mem (named : Named names ms) : ∀ m ∈ rawMembers ms, Plain m.1 := by
  intro m hm
  obtain ⟨found, member, rfl⟩ := List.mem_map.mp hm
  refine named.plain found.1 ?_
  rw [← named.fst]
  exact List.mem_map_of_mem member

theorem Named.wellFormed (named : Named names ms) (values : ∀ m ∈ ms, m.2.WellFormed)
    : (Value.ofMembers ms).WellFormed :=
  .object named.plain_of_mem (List.forall_mem_map.mpr values)

theorem Named.plainMembers? (named : Named names ms)
    : plainMembers? (rawMembers ms) = some (rawMembers ms) := by
  have plain : ∀ m ∈ rawMembers ms, (unescape? m.1).map (fun name => (name, m.2)) = some m := by
    intro m hm
    rw [unescape?_plain (named.plain_of_mem m hm)]
    rfl
  have all := mapM_eq_some_map plain
  rwa [List.map_id'] at all

theorem valuesOf_cons (name : String) (m : String × Value) (ms : List (String × Value))
    : valuesOf name (rawMembers (m :: ms))
      = if m.1 = name then m.2 :: valuesOf name (rawMembers ms)
        else valuesOf name (rawMembers ms) := by
  by_cases same : m.1 = name <;>
    simp [valuesOf, rawMembers, String.toList_inj, same]

/-- A name that no member has finds nothing. -/
theorem valuesOf_eq_nil (absent : name ∉ ms.map Prod.fst)
    : valuesOf name (rawMembers ms) = [] := by
  induction ms with
  | nil => rfl
  | cons m ms ih =>
      rw [List.map_cons, List.mem_cons, not_or] at absent
      rw [valuesOf_cons, if_neg (Ne.symm absent.1)]
      exact ih absent.2

/-- Where all names are different, a member's name finds its value and no other, by induction over
the members.
-/
theorem valuesOf_eq_singleton (distinct : (ms.map Prod.fst).Nodup) (member : (name, v) ∈ ms)
    : valuesOf name (rawMembers ms) = [v] := by
  induction ms with
  | nil => cases member
  | cons m ms ih =>
      obtain ⟨fresh, distinct⟩ := List.nodup_cons.mp distinct
      rw [valuesOf_cons]
      rcases List.mem_cons.mp member with rfl | later
      · rw [if_pos rfl, valuesOf_eq_nil fresh]
      · rw [if_neg, ih distinct later]
        intro same
        rw [same] at fresh
        exact fresh (List.mem_map_of_mem (f := Prod.fst) later)

/-- Every field of a record that is written as an object is given. -/
theorem Named.fields? (named : Named names ms)
    : fields? names (.ofMembers ms) = some (ms.map fun m => some m.2) := by
  have given : ∀ m ∈ ms, onlyValue? m.1 (rawMembers ms) = some (some m.2) := by
    intro m hm
    have distinct := named.distinct
    rw [← named.fst] at distinct
    rw [onlyValue?, valuesOf_eq_singleton distinct hm]
  have all := mapM_eq_some_map given
  have members := named.plainMembers?
  rw [rawMembers] at members all
  simp only [Json.fields?, Value.ofMembers, members, ← named.fst, Option.bind_eq_bind,
    Option.bind_some, List.mapM_map]
  exact all

/-- The elements of an array are read one by one. -/
theorem list?_map {read : Value → Option α} {write : α → Value} {l : List α}
    (reads : ∀ a ∈ l, read (write a) = some a)
    : list? read (.array (l.map write)) = some l := by
  have all := mapM_eq_some_map (f := read ∘ write) reads
  rwa [List.map_id', ← List.mapM_map] at all

theorem int32Value?_ofInt {k : Int} (fits : InInt32 k) : int32Value? (.ofInt k) = some k :=
  Number.toInt32?_ofInt fits

theorem Value.wellFormed_ofInt (k : Int) : (Value.ofInt k).WellFormed :=
  .number (Number.wellFormed_ofInt k)

theorem Value.wellFormed_ofSingle (x : Float32) : (Value.ofSingle x).WellFormed := by
  rcases Value.ofSingle_cases x with null | ⟨n, number, written⟩
  · rw [null]
    exact .null
  · rw [written]
    exact .number number

/-- A text that holds a well formed value is read as the value. -/
theorem readWhole?_text (wellFormed : v.WellFormed) (read : Value → Option α)
    : readWhole? read v.text = read v := by
  rw [readWhole?, Value.text, String.toList_ofList, take?_chars wellFormed]
  rfl

end Json

open Json

-----------------------------------------------------------------------------------------
-- Cells and settings
-----------------------------------------------------------------------------------------

theorem Point.named (p : Point) : Named ["x", "y"] [("x", .ofInt p.x), ("y", .ofInt p.y)] :=
  ⟨rfl, by simp [Plain], by decide⟩

theorem Point.wellFormed_toJson (p : Point) : p.toJson.WellFormed := by
  refine p.named.wellFormed ?_
  simp [Value.wellFormed_ofInt]

/-- A cell with coordinates of 32 bits is read as itself. -/
theorem Point.ofJson?_toJson {p : Point} (fits : p.Fits) : Point.ofJson? p.toJson = some p := by
  rw [Point.ofJson?, Point.toJson, p.named.fields?]
  simp only [List.map_cons, List.map_nil, required?, int32Value?_ofInt fits.1,
    int32Value?_ofInt fits.2]
  rfl

theorem Settings.named (c : Settings)
    : Named ["smooth", "connectivity_reject", "corner_offset"]
        [("smooth", .bool c.smooth), ("connectivity_reject", .bool c.connectivityReject),
          ("corner_offset", .ofSingle c.cornerOffset)] :=
  ⟨rfl, by simp [Plain], by decide⟩

theorem Settings.wellFormed_toJson (c : Settings) : c.toJson.WellFormed := by
  refine c.named.wellFormed ?_
  simp [Value.wellFormed_ofSingle, Value.WellFormed.bool]

/-- Settings are read as they are but for the offset, with which they are read or refused. -/
theorem Settings.ofJson?_toJson (c : Settings)
    : Settings.ofJson? c.toJson
      = (singleValue? (.ofSingle c.cornerOffset)).map fun offset =>
          { c with cornerOffset := offset } := by
  rw [Settings.ofJson?, Settings.toJson, c.named.fields?]
  simp only [List.map_cons, List.map_nil, optional?, bool?]
  cases singleValue? (.ofSingle c.cornerOffset) <;> rfl

end Wayfinding
