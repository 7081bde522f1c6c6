import Wayfinding.Json.Records
import Wayfinding.ReadFault

/-!
Snapshots: the size, the obstacles and the settings of a map as a JSON text. What queries left
behind and the marked parts are not kept.
-/

namespace Wayfinding

open Json

/-- What a snapshot keeps of a map. -/
structure Snapshot where
  width : Int
  height : Int
  obstacles : List Point
  settings : Settings
deriving DecidableEq

namespace Snapshot

/-- A snapshot as an object. -/
def toJson (s : Snapshot) : Value :=
  .ofMembers
    [("width", .ofInt s.width), ("height", .ofInt s.height),
      ("obstacles", .array (s.obstacles.map Point.toJson)), ("config", s.settings.toJson)]

/-- The snapshot that a value describes. Without obstacles there are none, and the settings are as
usual if they are missing.
-/
def ofJson? (v : Value) : Option Snapshot :=
  match fields? ["width", "height", "obstacles", "config"] v with
  | some [w, h, obstacles, settings] => do
      return ⟨← required? int32Value? w, ← required? int32Value? h,
        ← optional? [] (list? Point.ofJson?) obstacles,
        ← optional? {} Settings.ofJson? settings⟩
  | _ => none

/-- The map that a snapshot describes. -/
def toMap (s : Snapshot) : Except MapFault GridMap :=
  GridMap.ofObstacles s.width s.height s.settings s.obstacles

end Snapshot

namespace GridMap

/-- The snapshot of a map, with its obstacles row by row. -/
def snapshot (m : GridMap) : Snapshot :=
  ⟨m.extent.width, m.extent.height, m.terrain.obstacles, m.settings⟩

/-- A map as a text. -/
def save (m : GridMap) : String :=
  m.snapshot.toJson.text

/-- The map that a text describes. A fault of the map comes before anything that follows the
snapshot in the text.
-/
def load (text : String) : Except ReadFault GridMap :=
  match take? text.toList with
  | none => .error .malformed
  | some (v, rest) =>
      match Snapshot.ofJson? v with
      | none => .error .malformed
      | some s =>
          match s.toMap with
          | .error reason => .error (.snapshot reason)
          | .ok m => if atEnd rest then .ok m else .error .malformed

end GridMap

end Wayfinding
