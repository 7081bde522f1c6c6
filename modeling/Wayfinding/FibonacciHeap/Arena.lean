import Wayfinding.FibonacciHeap.Fault
import Wayfinding.FibonacciHeap.Slots
import Wayfinding.FibonacciHeap.Tree

/-!
Fibonacci heaps in slots. The number of a slot is the handle of its element; slots that became
free are used again, the one freed last first. An operation is `none` where the links lead
nowhere, and `Proofs.Heap.Refinement` says that this never happens.
-/

namespace Wayfinding

/-- A heap in slots: the slots and the free ones among them, the root with the least key, the
number of elements and how many there may be, and a table with a root for each degree, which is
only of use while roots are merged.
-/
structure Arena (κ α : Type) where
  slots : Slots κ α
  free : List Nat
  least : Option Nat
  size : Nat
  capacity : Nat
  table : List (Option Nat)

namespace Arena

variable {κ α : Type}

/-- The number of binary digits of a number. -/
def bitLength (n : Nat) : Nat :=
  if n = 0 then 0 else n.log2 + 1

/-- The empty heap for at most `capacity` elements, which must be at least one. -/
def empty (κ α : Type) (capacity : Nat) : Except HeapFault (Arena κ α) :=
  if capacity = 0 then .error .zeroCapacity
  else
    .ok {
      slots := ⟨#[]⟩
      free := []
      least := none
      size := 0
      capacity := capacity
      table := List.replicate (bitLength (capacity - 1) + 2) none }

/-- Whether there is no element. -/
def isEmpty (a : Arena κ α) : Bool :=
  a.size == 0

/-- The heap in writing, such as `FibHeap \x7b len: 0, max: 4 \x7d`. -/
def text (a : Arena κ α) : String :=
  "FibHeap \x7b len: " ++ Decimal.ofNat a.size ++ ", max: " ++ Decimal.ofNat a.capacity ++ " \x7d"

/-- The element in a slot, if it holds one. -/
def entry? (a : Arena κ α) (i : Nat) : Option (Entry κ α) := do
  let t ← a.slots.slot? i
  let value ← t.value
  return ⟨i, t.key, value⟩

/-- The key of the element in a slot. -/
def key? (a : Arena κ α) (i : Nat) : Option κ :=
  (a.entry? i).map Entry.key

/-- The value of the element in a slot. -/
def get? (a : Arena κ α) (i : Nat) : Option α :=
  (a.entry? i).map Entry.value

/-- The element with the least key. -/
def peek (a : Arena κ α) : Option (Option (Entry κ α)) :=
  match a.least with
  | none => some none
  | some m => do
      let t ← a.slots.slot? m
      return t.value.map fun value => ⟨m, t.key, value⟩

/-- The heap with a function applied to the value of the element in a slot, if it holds one. -/
def modify (a : Arena κ α) (i : Nat) (f : α → α) : Arena κ α :=
  match a.slots.edit i fun t => { t with value := t.value.map f } with
  | some slots => { a with slots := slots }
  | none => a

/-- A slot for a new element: the one freed last, or a new one. -/
def allot (a : Arena κ α) (t : Slot κ α) : Option (Nat × List Nat × Slots κ α) :=
  match a.free with
  | i :: free => (a.slots.edit i fun _ => t).map fun slots => (i, free, slots)
  | [] => some (a.slots.size, [], a.slots.push t)

variable [LT κ] [DecidableLT κ]

/-- Makes the slot `n` with a key a root, the last one in the ring that is read from the least root
on; it is the least one itself if its key is below that of the least one before.
-/
def addRoot (a : Arena κ α) (n : Nat) (key : κ) : Option (Arena κ α) :=
  match a.least with
  | none => some { a with least := some n }
  | some m => do
      let slots ← a.slots.splice m n
      let t ← slots.slot? m
      return { a with slots := slots, least := if key < t.key then some n else some m }

/-- Adds an element as a root and gives its slot, unless the heap is full. -/
def insert (a : Arena κ α) (key : κ) (value : α) : Option (Except HeapFault Nat × Arena κ α) :=
  if a.capacity ≤ a.size then some (.error (.capacityExceeded a.capacity), a)
  else do
    let (n, free, slots) ← a.allot (.fresh key value)
    let slots ← slots.edit n fun t => { t with left := n, right := n }
    let a ← addRoot { a with slots := slots, free := free, size := a.size + 1 } n key
    return (.ok n, a)

/-- Merges the roots in the order of their ring until their degrees differ. -/
def consolidate (a : Arena κ α) : Option (Arena κ α) := do
  let roots ← a.slots.ring a.least
  let (slots, table) ← Slots.settleAll roots (a.slots, a.table.map fun _ => none)
  let least ← slots.leastOf? none table.reduceOption
  return { a with slots := slots, least := least, table := table }

/-- Takes the root `z` out of the ring of the roots. -/
def removeRoot (a : Arena κ α) (z : Nat) : Option (Arena κ α) := do
  let t ← a.slots.slot? z
  if t.right = z then return { a with least := none }
  else
    let slots ← a.slots.unlink z
    consolidate { a with slots := slots, least := some t.right }

/-- Frees the slot `z` and gives the element that it held. -/
def vacate (a : Arena κ α) (z : Nat) : Option (Option (Entry κ α) × Arena κ α) := do
  let t ← a.slots.slot? z
  let slots ← a.slots.edit z fun t => { t with value := none }
  match a.size with
  | 0 => none
  | n + 1 =>
      return (t.value.map fun value => ⟨z, t.key, value⟩,
        { a with slots := slots, free := z :: a.free, size := n })

/-- The element with the least key and the heap without it, or none and the same heap. -/
def pop (a : Arena κ α) : Option (Option (Entry κ α) × Arena κ α) :=
  match a.least with
  | none => some (none, a)
  | some z => do
      let t ← a.slots.slot? z
      let children ← a.slots.ring t.child
      let slots ← children.foldlM (Slots.release z) a.slots
      let slots ← slots.edit z fun t => { t with child := none, degree := 0 }
      let a ← removeRoot { a with slots := slots } z
      a.vacate z

/-- Lowers the key of the element in a slot. -/
def decreaseKey (a : Arena κ α) (x : Nat) (key : κ)
    : Option (Except HeapFault Unit × Arena κ α) :=
  match a.entry? x with
  | none => some (.error (.staleHandle x), a)
  | some e =>
      if e.key < key then some (.error .keyIncreased, a)
      else do
        let slots ← a.slots.edit x fun t => { t with key := key }
        let slots ← slots.detach a.least x key
        match a.least with
        | none => return (.ok (), { a with slots := slots })
        | some m => do
            let t ← slots.slot? m
            let least := if key < t.key then x else m
            return (.ok (), { a with slots := slots, least := some least })

/-- Takes out at most `n` elements, each time the least. -/
def popMany (a : Arena κ α) : Nat → Option (List (Entry κ α) × Arena κ α)
  | 0 => some ([], a)
  | n + 1 => do
      match ← a.pop with
      | (none, a) => return ([], a)
      | (some e, a) =>
          let (es, last) ← a.popMany n
          return (e :: es, last)

/-- Takes out all elements, each time the least. -/
def drain (a : Arena κ α) : Option (List (Entry κ α) × Arena κ α) :=
  a.popMany a.size

end Arena

end Wayfinding
