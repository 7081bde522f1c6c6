import Wayfinding.FibonacciHeap.Consolidate
import Wayfinding.FibonacciHeap.Lower
import Wayfinding.FibonacciHeap.Fault

/-!
Fibonacci heaps with handles: the least key comes out first, and the key of an element can be
lowered by the handle that `insert` gave for it. The order in which equal keys come out follows
from the ring of the roots, which begins at the least one, and from the rules of `consolidate`.
The handle of an element that came out is given again to a later element, the one freed last
first.
-/

namespace Wayfinding

/-- A heap: its root trees from the least on, the freed handles, how many handles there are
altogether, how many elements, and how many there may be.
-/
structure FibonacciHeap (κ : Type u) (α : Type v) where
  roots : List (Tree κ α)
  free : List Nat
  issued : Nat
  size : Nat
  capacity : Nat

namespace FibonacciHeap

variable {κ : Type u} {α : Type v}

/-- The empty heap for at most `capacity` elements, which must be at least one. -/
def empty (κ : Type u) (α : Type v) (capacity : Nat) : Except HeapFault (FibonacciHeap κ α) :=
  if capacity = 0 then .error .zeroCapacity else .ok ⟨[], [], 0, 0, capacity⟩

/-- All elements, tree by tree. -/
def entries (h : FibonacciHeap κ α) : List (Entry κ α) :=
  Tree.forestEntries h.roots

/-- Whether there is no element. -/
def isEmpty (h : FibonacciHeap κ α) : Bool :=
  h.size == 0

/-- The element with the least key. -/
def peek? (h : FibonacciHeap κ α) : Option (Entry κ α) :=
  h.roots.head?.map Tree.entry

/-- The element that a handle names. -/
def entry? (h : FibonacciHeap κ α) (handle : Nat) : Option (Entry κ α) :=
  h.entries.find? fun e => e.handle == handle

/-- The key of the element that a handle names. -/
def key? (h : FibonacciHeap κ α) (handle : Nat) : Option κ :=
  (h.entry? handle).map Entry.key

/-- The value of the element that a handle names. -/
def get? (h : FibonacciHeap κ α) (handle : Nat) : Option α :=
  (h.entry? handle).map Entry.value

/-- The heap with a function applied to the value that a handle names. -/
def modify (h : FibonacciHeap κ α) (handle : Nat) (f : α → α) : FibonacciHeap κ α :=
  { h with roots := Tree.modifyForest handle f h.roots }

/-- The heap in writing, such as `FibHeap \x7b len: 0, max: 4 \x7d`. -/
def text (h : FibonacciHeap κ α) : String :=
  "FibHeap \x7b len: " ++ Decimal.ofNat h.size ++ ", max: " ++ Decimal.ofNat h.capacity ++ " \x7d"

variable [LT κ] [DecidableLT κ]

/-- The ring with a new root, which comes first if its key is below all others and last if not. -/
def addRoot (t : Tree κ α) : List (Tree κ α) → List (Tree κ α)
  | [] => [t]
  | m :: rest => if t.key < m.key then t :: m :: rest else m :: rest ++ [t]

/-- Adds an element and gives its handle, unless the heap is full. -/
def insert (h : FibonacciHeap κ α) (key : κ) (value : α)
    : Except HeapFault Nat × FibonacciHeap κ α :=
  if h.capacity ≤ h.size then (.error (.capacityExceeded h.capacity), h)
  else
    match h.free with
    | handle :: free =>
        (.ok handle, { h with
          roots := addRoot (.leaf ⟨handle, key, value⟩) h.roots
          free := free
          size := h.size + 1 })
    | [] =>
        (.ok h.issued, { h with
          roots := addRoot (.leaf ⟨h.issued, key, value⟩) h.roots
          issued := h.issued + 1
          size := h.size + 1 })

/-- The element with the least key and the heap without it. Its children become roots after the
others, and the roots are consolidated.
-/
def pop? (h : FibonacciHeap κ α) : Option (Entry κ α × FibonacciHeap κ α) :=
  match h.roots with
  | [] => none
  | z :: rest =>
      some (z.entry, { h with
        roots := startAtLeast (consolidate (rest ++ z.children))
        free := z.handle :: h.free
        size := h.size - 1 })

/-- The ring read from the root `handle` on if the key `key` is below that of the first root. -/
def promote (handle : Nat) (key : κ) : List (Tree κ α) → List (Tree κ α)
  | [] => []
  | m :: rest => if key < m.key then startAt handle (m :: rest) else m :: rest

/-- Lowers the key of the element that a handle names. -/
def decreaseKey (h : FibonacciHeap κ α) (handle : Nat) (key : κ)
    : Except HeapFault Unit × FibonacciHeap κ α :=
  match h.entry? handle, lowerRoots? handle key h.roots with
  | some e, some roots =>
      if e.key < key then (.error .keyIncreased, h)
      else (.ok (), { h with roots := promote handle key roots })
  | _, _ => (.error (.staleHandle handle), h)

/-- Takes out at most `n` elements, each time the least. -/
def popMany (h : FibonacciHeap κ α) : Nat → List (Entry κ α) × FibonacciHeap κ α
  | 0 => ([], h)
  | n + 1 =>
      match h.pop? with
      | none => ([], h)
      | some (e, h') =>
          let (es, last) := h'.popMany n
          (e :: es, last)

/-- Takes out all elements, each time the least. -/
def drain (h : FibonacciHeap κ α) : List (Entry κ α) × FibonacciHeap κ α :=
  h.popMany h.size

end FibonacciHeap

end Wayfinding
