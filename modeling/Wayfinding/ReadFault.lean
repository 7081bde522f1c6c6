import Wayfinding.MapFault
import Wayfinding.Text.Quoted

/-!
Why a text is refused as a map, and the wording of each reason.
-/

namespace Wayfinding

/-- The reasons for which a text is refused as a map: a drawing without rows, a row with a width
other than the first one's, an unknown character, a fault of the map that was read, and a snapshot
that is no snapshot or describes no map.
-/
inductive ReadFault where
  | empty
  | ragged (row : Nat)
  | badChar (c : Char) (place : Point)
  | nav (reason : MapFault)
  | malformed
  | snapshot (reason : MapFault)
deriving DecidableEq

namespace ReadFault

/-- The wording of a reason. -/
def message : ReadFault → String
  | empty => "empty map"
  | ragged row => "row " ++ Decimal.ofNat row ++ " has a different width"
  | badChar c place => "unexpected " ++ Text.quoted c ++ " at " ++ place.text
  | nav reason => reason.message
  | malformed => "invalid map file"
  | snapshot reason => "invalid map file: " ++ reason.message

/-- The answer of a map, with its reason passed on. -/
def ofMap : Except MapFault α → Except ReadFault α
  | .ok a => .ok a
  | .error reason => .error (nav reason)

end ReadFault

end Wayfinding
