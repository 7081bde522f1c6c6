import Wayfinding.FibonacciHeap.Tree

/-!
Lowering the key of an element in its tree. An element whose key falls below its parent's is cut
off. The parent is marked by that, and a parent that was marked already is cut off as well, and
so on upwards; a root is never cut off.
-/

namespace Wayfinding.FibonacciHeap

variable {κ : Type u} {α : Type v}

/-- What remains where something may have been cut off: the rest, the trees that were cut off in
the order of the cuts, and whether the element above the rest has lost a child.
-/
structure Pruned (κ : Type u) (α : Type v) (β : Type w) where
  rest : β
  cuts : List (Tree κ α)
  lost : Bool

variable [LT κ] [DecidableLT κ]

/-- Puts the pruned child `p` back before its siblings, or cuts it off: because its new key is
below the parent's, or because it has lost a second child.
-/
def reattach (parent : κ) (lowered : Nat) (p : Pruned κ α (Tree κ α))
    (siblings : List (Tree κ α)) : Pruned κ α (List (Tree κ α)) :=
  if (p.rest.handle = lowered ∧ p.rest.key < parent) ∨ (p.lost ∧ p.rest.marked) then
    ⟨siblings, p.cuts ++ [p.rest.setMarked false], true⟩
  else if p.lost then ⟨p.rest.setMarked true :: siblings, p.cuts, false⟩
  else ⟨p.rest :: siblings, p.cuts, false⟩

mutual

/-- Gives the element with handle `h` the key `k`, if the tree holds it. -/
def lowerTree? (h : Nat) (k : κ) : Tree κ α → Option (Pruned κ α (Tree κ α))
  | .node e m cs =>
      if e.handle = h then some ⟨.node { e with key := k } m cs, [], false⟩
      else
        match lowerForest? h k e.key cs with
        | some p => some ⟨.node e m p.rest, p.cuts, p.lost⟩
        | none => none

/-- Gives the element with handle `h` the key `k`, if it is among the children of an element with
the key `parent`, or below them.
-/
def lowerForest? (h : Nat) (k : κ) (parent : κ)
    : List (Tree κ α) → Option (Pruned κ α (List (Tree κ α)))
  | [] => none
  | t :: ts =>
      match lowerTree? h k t with
      | some p => some (reattach parent h p ts)
      | none =>
          match lowerForest? h k parent ts with
          | some p => some { p with rest := t :: p.rest }
          | none => none

end

/-- Gives the element with handle `h` the key `k` in the first root tree that holds it; what is
cut off goes to the end of the ring.
-/
def lowerRoots? (h : Nat) (k : κ) : List (Tree κ α) → Option (List (Tree κ α))
  | [] => none
  | t :: ts =>
      match lowerTree? h k t with
      | some p => some (p.rest :: ts ++ p.cuts)
      | none => (lowerRoots? h k ts).map (t :: ·)

end Wayfinding.FibonacciHeap
