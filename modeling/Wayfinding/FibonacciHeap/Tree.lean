/-!
The trees of a Fibonacci heap. Every element has a handle; the children of an element are kept
in a ring, which is a list here that begins at the ring's distinguished member.
-/

namespace Wayfinding

/-- An element of a heap with its key, its value and the handle that names it. -/
structure Entry (κ : Type u) (α : Type v) where
  handle : Nat
  key : κ
  value : α
deriving DecidableEq

/-- An element, whether it has lost a child since it became one itself, and its children. -/
inductive Tree (κ : Type u) (α : Type v) where
  | node (entry : Entry κ α) (marked : Bool) (children : List (Tree κ α))

namespace Tree

variable {κ : Type u} {α : Type v}

/-- The element at the root of a tree. -/
def entry : Tree κ α → Entry κ α
  | node e _ _ => e

/-- The root has lost a child since it became one itself. -/
def marked : Tree κ α → Bool
  | node _ m _ => m

/-- The trees below the root, in the order of their ring. -/
def children : Tree κ α → List (Tree κ α)
  | node _ _ cs => cs

/-- The key of the root. -/
def key (t : Tree κ α) : κ :=
  t.entry.key

/-- The handle of the root. -/
def handle (t : Tree κ α) : Nat :=
  t.entry.handle

/-- The number of children. -/
def degree (t : Tree κ α) : Nat :=
  t.children.length

/-- The tree with its root marked or unmarked. -/
def setMarked (m : Bool) : Tree κ α → Tree κ α
  | node e _ cs => node e m cs

/-- The tree of one element. -/
def leaf (e : Entry κ α) : Tree κ α :=
  node e false []

/-- The tree with another one as its last child, which loses its mark by that. -/
def adopt : Tree κ α → Tree κ α → Tree κ α
  | node e m cs, child => node e m (cs ++ [child.setMarked false])

mutual

/-- All elements of a tree, the root before those below it. -/
def entries : Tree κ α → List (Entry κ α)
  | node e _ cs => e :: forestEntries cs

/-- All elements of a list of trees. -/
def forestEntries : List (Tree κ α) → List (Entry κ α)
  | [] => []
  | t :: ts => t.entries ++ forestEntries ts

end

mutual

/-- The tree with a function applied to the value that a handle names. -/
def modify (h : Nat) (f : α → α) : Tree κ α → Tree κ α
  | node e m cs =>
      node (if e.handle = h then { e with value := f e.value } else e) m (modifyForest h f cs)

/-- The trees with a function applied to the value that a handle names. -/
def modifyForest (h : Nat) (f : α → α) : List (Tree κ α) → List (Tree κ α)
  | [] => []
  | t :: ts => t.modify h f :: modifyForest h f ts

end

/-- The elements of joined lists of trees are those of one list and then those of the other. -/
@[simp] theorem forestEntries_append (ts us : List (Tree κ α))
    : forestEntries (ts ++ us) = forestEntries ts ++ forestEntries us := by
  induction ts with
  | nil => rfl
  | cons t ts ih => simp [forestEntries, ih]

/-- Marking changes no element. -/
@[simp] theorem entries_setMarked (m : Bool) (t : Tree κ α)
    : (t.setMarked m).entries = t.entries := by
  cases t
  rfl

/-- A tree that adopts another has the elements of both. -/
theorem entries_adopt (t c : Tree κ α) : (t.adopt c).entries = t.entries ++ c.entries := by
  cases t
  simp [adopt, entries, forestEntries]

/-- Adoption adds one child. -/
@[simp] theorem degree_adopt (t c : Tree κ α) : (t.adopt c).degree = t.degree + 1 := by
  cases t
  simp [adopt, degree, children]

end Tree

end Wayfinding
