/-!
Elements in numbered slots. An element knows the slots of its parent, of one of its children and
of its neighbours in the ring of its siblings, and all work on the trees changes these links. An
operation is `none` where it would look for a slot that is not there, take a child from an element
that has none, or follow a ring or a line of parents without end.
-/

namespace Wayfinding

/-- What a slot holds: an element, or none once it came out, whether it has lost a child since it
became one itself, the number of its children, and the slot of one of them.
-/
structure Content (κ α : Type) where
  key : κ
  value : Option α
  marked : Bool
  degree : Nat
  child : Option Nat

/-- The links of a slot to its parent and to its neighbours among the siblings. -/
structure Links where
  parent : Option Nat
  left : Nat
  right : Nat

/-- A slot: what it holds and how it is linked to others. -/
structure Slot (κ α : Type) extends Content κ α, Links

/-- The slot of a new element. -/
def Slot.fresh (key : κ) (value : α) : Slot κ α where
  key := key
  value := some value
  marked := false
  degree := 0
  child := none
  parent := none
  left := 0
  right := 0

/-- The slots of a heap. -/
structure Slots (κ α : Type) where
  cells : Array (Slot κ α)

namespace Slots

variable {κ α : Type}

/-- The number of slots. -/
def size (s : Slots κ α) : Nat :=
  s.cells.size

/-- The slot with a number. -/
def slot? (s : Slots κ α) (i : Nat) : Option (Slot κ α) :=
  s.cells[i]?

/-- The slots with a function applied to one of them. -/
def edit (s : Slots κ α) (i : Nat) (f : Slot κ α → Slot κ α) : Option (Slots κ α) :=
  if i < s.size then some ⟨s.cells.modify i f⟩ else none

/-- The slots with one more. -/
def push (s : Slots κ α) (t : Slot κ α) : Slots κ α :=
  ⟨s.cells.push t⟩

-----------------------------------------------------------------------------------------
-- Rings
-----------------------------------------------------------------------------------------

/-- Links a slot into the ring of `anchor`, on its left. -/
def splice (s : Slots κ α) (anchor n : Nat) : Option (Slots κ α) := do
  let a ← s.slot? anchor
  let s ← s.edit n fun t => { t with left := a.left, right := anchor }
  let s ← s.edit a.left fun t => { t with right := n }
  s.edit anchor fun t => { t with left := n }

/-- Takes a slot out of its ring and leaves it in a ring of its own. -/
def unlink (s : Slots κ α) (n : Nat) : Option (Slots κ α) := do
  let a ← s.slot? n
  let s ← s.edit a.left fun t => { t with right := a.right }
  let s ← s.edit a.right fun t => { t with left := a.left }
  s.edit n fun t => { t with left := n, right := n }

/-- The slots from `i` on to the right until `first` comes again, within a number of steps. -/
def ringFrom (s : Slots κ α) (first : Nat) : Nat → Nat → Option (List Nat)
  | 0, _ => none
  | steps + 1, i => do
      let t ← s.slot? i
      if t.right = first then return [i]
      else return i :: (← s.ringFrom first steps t.right)

/-- The ring that a slot is in, read from there on. It has no more members than there are slots. -/
def ring (s : Slots κ α) : Option Nat → Option (List Nat)
  | none => some []
  | some first => s.ringFrom first s.size first

-----------------------------------------------------------------------------------------
-- Trees
-----------------------------------------------------------------------------------------

/-- Puts `y` behind the children of `x`. -/
def attach (s : Slots κ α) (y x : Nat) : Option (Slots κ α) := do
  let a ← s.slot? x
  match a.child with
  | none => s.edit x fun t => { t with child := some y }
  | some c => s.splice c y

/-- Makes the root `y` the last child of the root `x`. -/
def link (s : Slots κ α) (y x : Nat) : Option (Slots κ α) := do
  let s ← s.unlink y
  let s ← s.edit y fun t => { t with parent := some x }
  let s ← s.attach y x
  let s ← s.edit x fun t => { t with degree := t.degree + 1 }
  s.edit y fun t => { t with marked := false }

/-- Leaves `x` out as the distinguished child of `y`; the next one takes its place. -/
def passOver (s : Slots κ α) (x y : Nat) : Option (Slots κ α) := do
  let a ← s.slot? x
  let b ← s.slot? y
  if b.child = some x then
    s.edit y fun t => { t with child := if a.right = x then none else some a.right }
  else some s

/-- Takes one off the number of children of `y`. -/
def dropChild (s : Slots κ α) (y : Nat) : Option (Slots κ α) := do
  let b ← s.slot? y
  match b.degree with
  | 0 => none
  | n + 1 => s.edit y fun t => { t with degree := n }

/-- Makes the child `x` of `y` a root, the last one in the ring that is read from `least` on. -/
def cut (s : Slots κ α) (least : Option Nat) (x y : Nat) : Option (Slots κ α) := do
  let s ← s.passOver x y
  let s ← s.unlink x
  let s ← s.dropChild y
  let s ← s.edit x fun t => { t with parent := none }
  let s ← s.edit x fun t => { t with marked := false }
  match least with
  | none => some s
  | some m => s.splice m x

/-- Marks the element `y`, which has lost a child, unless it is a root; if it was marked before, it
is cut off instead, and so on upwards within a number of steps.
-/
def cascade (s : Slots κ α) (least : Option Nat) : Nat → Nat → Option (Slots κ α)
  | 0, _ => none
  | steps + 1, y => do
      let b ← s.slot? y
      match b.parent with
      | none => some s
      | some z =>
          if b.marked then
            let s ← s.cut least y z
            s.cascade least steps z
          else s.edit y fun t => { t with marked := true }

/-- Makes the child `c` of the root `z` a root, the last one in the ring that is read from `z` on.
-/
def release (z : Nat) (s : Slots κ α) (c : Nat) : Option (Slots κ α) := do
  let s ← s.edit c fun t => { t with parent := none, left := c, right := c }
  s.splice z c

variable [LT κ] [DecidableLT κ]

/-- Cuts `x` off if its key, which was lowered to `key`, is below that of its parent. -/
def detach (s : Slots κ α) (least : Option Nat) (x : Nat) (key : κ) : Option (Slots κ α) := do
  let a ← s.slot? x
  match a.parent with
  | none => some s
  | some y => do
      let b ← s.slot? y
      if key < b.key then
        let s ← s.cut least x y
        s.cascade least s.size y
      else some s

/-- Merges the root `x` of degree `d` with the one that the table has for this degree, for as long
as there is one, and enters what comes of it. The table grows with the degrees.
-/
def settle (s : Slots κ α) (table : List (Option Nat)) (x d : Nat)
    : Option (Slots κ α × List (Option Nat)) :=
  match _h : table[d]? with
  | some (some y) => do
      let a ← s.slot? x
      let b ← s.slot? y
      if b.key < a.key then
        let s ← s.link x y
        s.settle (table.set d none) y (d + 1)
      else
        let s ← s.link y x
        s.settle (table.set d none) x (d + 1)
  | _ => some (s, (table.rightpad (d + 1) none).set d (some x))
termination_by table.length - d
decreasing_by
  all_goals
    have := (List.getElem?_eq_some_iff.mp _h).1
    rw [List.length_set]
    omega

/-- Settles roots one after the other. -/
def settleAll : List Nat → Slots κ α × List (Option Nat) → Option (Slots κ α × List (Option Nat))
  | [], state => some state
  | x :: xs, (s, table) => do
      let a ← s.slot? x
      settleAll xs (← s.settle table x a.degree)

/-- The first with the least key among `least` and the listed slots. -/
def leastOf? (s : Slots κ α) : Option Nat → List Nat → Option (Option Nat)
  | least, [] => some least
  | none, r :: rs => s.leastOf? (some r) rs
  | some m, r :: rs => do
      let a ← s.slot? m
      let b ← s.slot? r
      if b.key < a.key then s.leastOf? (some r) rs else s.leastOf? (some m) rs

end Slots

end Wayfinding
