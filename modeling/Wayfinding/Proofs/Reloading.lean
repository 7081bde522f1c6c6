import Wayfinding.Proofs.Json.Singles
import Wayfinding.Proofs.Snapshots

/-! Which maps can be loaded again once they are saved. Everything in a snapshot but the offset of the
settings is read as it was written. The offset is read as some number if it is finite; any other has
no number in JSON, so it is written as null, and then the whole snapshot is refused.
-/

namespace Wayfinding.GridMap

open Json

/-- A map that is saved is loaded with the offset that is read from its text, less the marked parts
and what queries left behind; it is refused if no offset is read.
-/
theorem load_save_eq (m : GridMap)
    : load m.save
      = (singleValue? (.ofSingle m.settings.cornerOffset)).elim (.error .malformed) fun offset =>
          .ok { m with
            settings := { m.settings with cornerOffset := offset }
            components := none
            start := none
            goal := none
            latestPath := [] } := by
  rw [load, save, Value.text, String.toList_ofList, take?_chars m.snapshot.wellFormed_toJson]
  simp only [ofJson?_toJson_snapshot]
  cases singleValue? (.ofSingle m.settings.cornerOffset) with
  | none => rfl
  | some offset =>
      simp only [Option.map_some, toMap_snapshot]
      rfl

/-- Exactly the maps with a finite offset can be loaded again. Such a map is loaded with some offset
and otherwise as it was, less the marked parts and what queries left behind.
-/
theorem exists_load_save (m : GridMap)
    : ∃ offset,
        load m.save
        = if m.settings.cornerOffset.isFinite then
            .ok { m with
              settings := { m.settings with cornerOffset := offset }
              components := none
              start := none
              goal := none
              latestPath := [] }
          else .error .malformed := by
  rw [load_save_eq, ← isSome_singleValue?_ofSingle]
  cases singleValue? (.ofSingle m.settings.cornerOffset) with
  | none => exact ⟨0, rfl⟩
  | some offset => exact ⟨offset, rfl⟩

/-- A text with an offset beyond the greatest number of single precision. -/
def farCorner : String :=
  "\x7b\"width\":1,\"height\":1,\"config\":\x7b\"corner_offset\":1e40\x7d\x7d"

/-- The text is accepted, but the map that it describes cannot be loaded again. -/
theorem load_save_farCorner
    : ∃ m, load farCorner = .ok m ∧ load m.save = .error .malformed := by
  have refused : (load farCorner).toOption.map (fun m => load m.save) = some (.error .malformed) := by
    decide +kernel
  cases loaded : load farCorner with
  | error reason =>
      rw [loaded] at refused
      cases refused
  | ok m =>
      rw [loaded] at refused
      exact ⟨m, rfl, Option.some.inj refused⟩

end Wayfinding.GridMap
