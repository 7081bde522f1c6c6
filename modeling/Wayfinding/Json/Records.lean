import Wayfinding.Json.Fields
import Wayfinding.Json.Number
import Wayfinding.GridMap.Basic
import Wayfinding.Rectangle

/-!
Cells, positions, rectangles and settings as JSON records.
-/

namespace Wayfinding

open Json

/-- A cell as an object. -/
def Point.toJson (p : Point) : Value :=
  .ofMembers [("x", .ofInt p.x), ("y", .ofInt p.y)]

/-- The cell that a value describes. -/
def Point.ofJson? (v : Value) : Option Point :=
  match fields? ["x", "y"] v with
  | some [x, y] => do return ⟨← required? int32Value? x, ← required? int32Value? y⟩
  | _ => none

/-- The position that a value describes. -/
def Position.ofJson? (v : Value) : Option Position :=
  match fields? ["x", "y"] v with
  | some [x, y] => do return ⟨← required? singleValue? x, ← required? singleValue? y⟩
  | _ => none

/-- A rectangle as an object. -/
def Rectangle.toJson (r : Rectangle) : Value :=
  .ofMembers [("width", .ofInt r.width), ("height", .ofInt r.height)]

/-- The rectangle that a value describes. A negative dimension is kept. -/
def Rectangle.ofJson? (v : Value) : Option Rectangle :=
  match fields? ["width", "height"] v with
  | some [w, h] => do return ⟨← required? int32Value? w, ← required? int32Value? h⟩
  | _ => none

/-- The settings as an object. -/
def Settings.toJson (c : Settings) : Value :=
  .ofMembers
    [("smooth", .bool c.smooth), ("connectivity_reject", .bool c.connectivityReject),
      ("corner_offset", .ofSingle c.cornerOffset)]

/-- The settings that a value describes. A missing one is as usual. -/
def Settings.ofJson? (v : Value) : Option Settings :=
  let usual : Settings := {}
  match fields? ["smooth", "connectivity_reject", "corner_offset"] v with
  | some [smooth, reject, offset] => do
      return ⟨← optional? usual.smooth bool? smooth,
        ← optional? usual.connectivityReject bool? reject,
        ← optional? usual.cornerOffset singleValue? offset⟩
  | _ => none

/-- What a reader finds in a text that holds one value and nothing else. -/
def Json.readWhole? (read : Value → Option α) (text : String) : Option α :=
  match take? text.toList with
  | none => none
  | some (v, rest) => if atEnd rest then read v else none

end Wayfinding
