import Wayfinding.Point

/-!
The eight compass directions, numbered clockwise from north, and sets of them. Odd numbers are
the diagonals.
-/

namespace Wayfinding

/-- A compass direction; north is towards smaller `y`. -/
inductive Direction where
  | n
  | ne
  | e
  | se
  | s
  | sw
  | w
  | nw
deriving DecidableEq

namespace Direction

/-- The directions in clockwise order from north. -/
def all : List Direction :=
  [.n, .ne, .e, .se, .s, .sw, .w, .nw]

/-- The place of a direction in clockwise order from north. -/
def index : Direction → Nat
  | .n => 0
  | .ne => 1
  | .e => 2
  | .se => 3
  | .s => 4
  | .sw => 5
  | .w => 6
  | .nw => 7

/-- The direction at a place in clockwise order, counted around the compass. -/
def ofIndex (i : Nat) : Direction :=
  match i % 8 with
  | 0 => .n
  | 1 => .ne
  | 2 => .e
  | 3 => .se
  | 4 => .s
  | 5 => .sw
  | 6 => .w
  | _ => .nw

/-- The direction some eighths of a turn clockwise from this one. -/
def turn (d : Direction) (eighths : Nat) : Direction :=
  ofIndex (d.index + eighths)

/-- The turned direction, unless the place it is computed from does not fit a byte. -/
def turn? (d : Direction) (eighths : Nat) : Option Direction :=
  (byte? (d.index + eighths)).map ofIndex

/-- The direction lies between two of the four main ones. -/
def diagonal (d : Direction) : Bool :=
  d.index % 2 == 1

/-- The offset of one step in this direction. -/
def delta : Direction → Point
  | .n => ⟨0, -1⟩
  | .ne => ⟨1, -1⟩
  | .e => ⟨1, 0⟩
  | .se => ⟨1, 1⟩
  | .s => ⟨0, 1⟩
  | .sw => ⟨-1, 1⟩
  | .w => ⟨-1, 0⟩
  | .nw => ⟨-1, -1⟩

/-- The compass name of a direction. -/
def name : Direction → String
  | .n => "N"
  | .ne => "NE"
  | .e => "E"
  | .se => "SE"
  | .s => "S"
  | .sw => "SW"
  | .w => "W"
  | .nw => "NW"

theorem index_lt (d : Direction) : d.index < 8 := by
  cases d <;> decide

@[simp] theorem mem_all (d : Direction) : d ∈ all := by
  cases d <;> decide

end Direction

/-- A set of directions, one bit for each. -/
structure DirectionSet where
  bits : BitVec 8
deriving DecidableEq

namespace DirectionSet

/-- The set without a member. -/
def empty : DirectionSet :=
  ⟨0⟩

/-- The set of all eight directions. -/
def full : DirectionSet :=
  ⟨255⟩

/-- The direction is a member. -/
def contains (s : DirectionSet) (d : Direction) : Bool :=
  s.bits.getLsbD d.index

/-- The set with one more member. -/
def insert (s : DirectionSet) (d : Direction) : DirectionSet :=
  ⟨s.bits ||| BitVec.twoPow 8 d.index⟩

/-- The members of either set. -/
def union (s t : DirectionSet) : DirectionSet :=
  ⟨s.bits ||| t.bits⟩

/-- The members in clockwise order from north. -/
def toList (s : DirectionSet) : List Direction :=
  Direction.all.filter s.contains

/-- The set of the listed directions. -/
def ofList (ds : List Direction) : DirectionSet :=
  ds.foldl insert empty

/-- The number of members. -/
def size (s : DirectionSet) : Nat :=
  s.toList.length

/-- Whether there is no member. -/
def isEmpty (s : DirectionSet) : Bool :=
  s.bits == 0

@[simp] theorem contains_empty (d : Direction) : empty.contains d = false := by
  cases d <;> rfl

@[simp] theorem contains_full (d : Direction) : full.contains d = true := by
  cases d <;> rfl

@[simp] theorem contains_union (s t : DirectionSet) (d : Direction)
    : (s.union t).contains d = (s.contains d || t.contains d) := by
  simp [contains, union]

@[simp] theorem contains_insert (s : DirectionSet) (d c : Direction)
    : (s.insert d).contains c = (s.contains c || decide (c = d)) := by
  simp only [contains, insert, BitVec.getLsbD_or]
  congr 1
  cases d <;> cases c <;> decide

@[simp] theorem mem_toList {s : DirectionSet} {d : Direction}
    : d ∈ s.toList ↔ s.contains d = true := by
  simp [toList]

end DirectionSet

end Wayfinding
