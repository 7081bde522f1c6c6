import Wayfinding.FibonacciHeap.Tree

/-!
Merging the roots of a heap until their degrees differ. The roots are taken in the order of
their ring; whenever two have the same degree, the one with the greater key becomes the last
child of the other, and of equal keys the one that came later stays a root. Whatever stays a root
keeps its place in the ring.
-/

namespace Wayfinding.FibonacciHeap

variable {κ : Type u} {α : Type v}

/-- A list of trees around the first one of a degree. -/
def splitAtDegree? (d : Nat)
    : List (Tree κ α) → Option (List (Tree κ α) × Tree κ α × List (Tree κ α))
  | [] => none
  | t :: ts =>
      if t.degree = d then some ([], t, ts)
      else (splitAtDegree? d ts).map fun (before, s, after) => (t :: before, s, after)

/-- The list is put together again from the parts around the tree that was found. -/
theorem splitAtDegree?_eq_some {d : Nat} {ts before after : List (Tree κ α)} {t : Tree κ α}
    (h : splitAtDegree? d ts = some (before, t, after))
    : ts = before ++ t :: after ∧ t.degree = d := by
  induction ts generalizing before with
  | nil => simp [splitAtDegree?] at h
  | cons s ss ih =>
      unfold splitAtDegree? at h
      split at h
      · simp only [Option.some.injEq, Prod.mk.injEq] at h
        obtain ⟨rfl, rfl, rfl⟩ := h
        exact ⟨rfl, by assumption⟩
      · obtain ⟨⟨b, u, a⟩, hs, he⟩ := Option.map_eq_some_iff.mp h
        simp only [Prod.mk.injEq] at he
        obtain ⟨rfl, rfl, rfl⟩ := he
        obtain ⟨rfl, hd⟩ := ih hs
        exact ⟨rfl, hd⟩

/-- No tree of the degree was there when none is found. -/
theorem splitAtDegree?_eq_none {d : Nat} {ts : List (Tree κ α)}
    : splitAtDegree? d ts = none ↔ ∀ t ∈ ts, t.degree ≠ d := by
  induction ts with
  | nil => simp [splitAtDegree?]
  | cons s ss ih =>
      unfold splitAtDegree?
      split <;> simp_all

variable [LT κ] [DecidableLT κ]

/-- Finds a place for the root `x` among roots of different degrees, `before` and `after` it in
the ring, by merging it with the one of its own degree for as long as there is one.
-/
def settle (before : List (Tree κ α)) (x : Tree κ α) (after : List (Tree κ α))
    : List (Tree κ α) :=
  match _hb : splitAtDegree? x.degree before with
  | some (left, y, right) =>
      if y.key < x.key then settle left (y.adopt x) (right ++ after)
      else settle (left ++ right) (x.adopt y) after
  | none =>
      match _ha : splitAtDegree? x.degree after with
      | some (left, y, right) =>
          if y.key < x.key then settle (before ++ left) (y.adopt x) right
          else settle before (x.adopt y) (left ++ right)
      | none => before ++ x :: after
termination_by before.length + after.length
decreasing_by
  · have := congrArg List.length (splitAtDegree?_eq_some _hb).1
    simp only [List.length_append, List.length_cons] at this ⊢
    omega
  · have := congrArg List.length (splitAtDegree?_eq_some _hb).1
    simp only [List.length_append, List.length_cons] at this ⊢
    omega
  · have := congrArg List.length (splitAtDegree?_eq_some _ha).1
    simp only [List.length_append, List.length_cons] at this ⊢
    omega
  · have := congrArg List.length (splitAtDegree?_eq_some _ha).1
    simp only [List.length_append, List.length_cons] at this ⊢
    omega

/-- Settles the roots one after the other. -/
def consolidate (ring : List (Tree κ α)) : List (Tree κ α) :=
  ring.foldl (fun settled x => settle settled x []) []

/-- The root `t` comes before `s` as the least one: by its key, and by its degree among equal
keys.
-/
def precedes (t s : Tree κ α) : Bool :=
  decide (t.key < s.key ∨ ¬ s.key < t.key ∧ t.degree < s.degree)

/-- The least of some roots. -/
def leastOf (t : Tree κ α) : List (Tree κ α) → Tree κ α
  | [] => t
  | s :: ss => leastOf (if precedes s t then s else t) ss

/-- The ring, read from the root with a handle on. -/
def startAt (h : Nat) (ring : List (Tree κ α)) : List (Tree κ α) :=
  ring.dropWhile (fun t => t.handle != h) ++ ring.takeWhile (fun t => t.handle != h)

/-- The ring, read from its least root on. -/
def startAtLeast : List (Tree κ α) → List (Tree κ α)
  | [] => []
  | t :: ts => startAt (leastOf t ts).handle (t :: ts)

end Wayfinding.FibonacciHeap
