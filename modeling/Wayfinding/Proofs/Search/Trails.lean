import Mathlib.Data.List.Chain
import Wayfinding.Proofs.Search.Ledger

/-! The path that a search reads off its record. Going back along the cells from which each one was
reached, every link is a bend; with its turning point put in between it falls into clear straight
and diagonal legs, and the path costs as much as the node it leads to.
-/

namespace Wayfinding

theorem octile_along (p : Point) (d : Direction) (n : Nat)
    : octile p (p.along d n) = n * d.cost := by
  cases d <;> simp only [octile, Point.along, Direction.cost, Direction.diagonal, Direction.index,
    Direction.delta, diagonalCost, straightCost, Point.add_x, Point.add_y, Point.scale_x,
    Point.scale_y] <;> simp only [Nat.reduceMod, Nat.reduceBEq, Bool.false_eq_true, if_true,
    if_false] <;> omega

/-- One more cell adds the octile cost from the last one to it, by induction over the path. -/
theorem pathCost_concat {path : List Point} {p : Point} (last : path.getLast? = some p)
    (q : Point)
    : pathCost (path ++ [q]) = pathCost path + octile p q := by
  fun_induction pathCost path with
  | case1 a b rest ih =>
      rw [List.getLast?_cons_cons] at last
      have further := ih last
      simp only [List.cons_append, pathCost] at further ⊢
      omega
  | case2 path short =>
      match path, short with
      | [], _ => cases last
      | [a], _ =>
          obtain rfl : a = p := by simpa using last
          simp [pathCost]
      | a :: b :: rest, short => exact absurd rfl (short a b rest)

namespace Terrain

variable {t : Terrain} {start p q : Point} {path : List Point} {d : Direction} {n : Nat} {c : Int}

/-- Two different cells in a straight or diagonal line, all of whose cells are inside and walkable,
the ends included.
-/
structure Leg (t : Terrain) (p q : Point) : Prop where
  distinct : p ≠ q
  clear : ∃ d n, q = p.along d n
    ∧ ∀ k ≤ n, t.extent.contains (p.along d k) = true ∧ t.walkable (p.along d k) = true

/-- A clear line of at least one step is a leg. -/
theorem Clear.leg (clear : t.Clear p d n) (moved : 0 < n) : t.Leg p (p.along d n) := by
  constructor
  · intro same
    have cost := octile_along p d n
    rw [← same, octile_self] at cost
    have positive := Int.mul_pos (Int.natCast_pos.mpr moved) d.cost_pos
    omega
  · exact ⟨d, n, rfl, fun k hk => ⟨contains_of_walkable (clear k hk), clear k hk⟩⟩

theorem Leg.walkable (leg : t.Leg p q) : t.walkable p = true ∧ t.walkable q = true := by
  obtain ⟨d, n, rfl, clear⟩ := leg.clear
  have first := (clear 0 (Nat.zero_le n)).2
  rw [Point.along_zero] at first
  exact ⟨first, (clear n (Nat.le_refl n)).2⟩

/-- A path of legs from the start to a cell, and its cost. -/
inductive Trail (t : Terrain) (start : Point) : List Point → Point → Int → Prop
  | start (free : t.walkable start = true) : t.Trail start [start] start 0
  | leg {path : List Point} {p q : Point} {c : Int} (before : t.Trail start path p c)
    (leg : t.Leg p q)
    : t.Trail start (path ++ [q]) q (c + octile p q)

theorem Trail.head? (h : t.Trail start path p c) : path.head? = some start := by
  induction h with
  | start => rfl
  | leg _ _ ih => simp [List.head?_append, ih]

theorem Trail.getLast? (h : t.Trail start path p c) : path.getLast? = some p := by
  cases h with
  | start => rfl
  | leg => simp

/-- All cells of a trail are walkable. -/
theorem Trail.walkable (h : t.Trail start path p c) : ∀ q ∈ path, t.walkable q = true := by
  induction h with
  | start free => simpa using free
  | leg _ leg ih =>
      intro q member
      rcases List.mem_append.mp member with old | new
      · exact ih q old
      · rw [List.mem_singleton.mp new]
        exact leg.walkable.2

/-- Consecutive cells of a trail are joined by legs. -/
theorem Trail.isChain (h : t.Trail start path p c) : path.IsChain t.Leg := by
  induction h with
  | start => exact .singleton start
  | @leg path p q c before leg ih =>
      apply ih.append (.singleton q)
      intro a ha b hb
      rw [before.getLast?] at ha
      cases ha
      cases hb
      exact leg

theorem Trail.pathCost_eq (h : t.Trail start path p c) : pathCost path = c := by
  induction h with
  | start => rfl
  | leg before _ ih => rw [pathCost_concat before.getLast?, ih]

/-- A bend makes a trail longer by one leg, or by two with its turning point between them. -/
theorem Trail.bend {f : Direction} {i j : Nat} (before : t.Trail start path p c)
    (bend : t.Bend p d f i j) (moved : 0 < i + j)
    : t.Trail start
        (path ++ (turningPoint? ((p.along d i).along f j) p).toList ++ [(p.along d i).along f j])
        ((p.along d i).along f j) (c + octile p ((p.along d i).along f j)) := by
  rw [turningPoint?_bend p i j bend.diagonal bend.beside]
  by_cases first : i = 0
  · subst first
    have second := bend.second
    rw [Point.along_zero] at second ⊢
    rw [if_pos (Or.inl rfl), Option.toList_none, List.append_nil]
    exact before.leg (second.leg (by omega))
  · by_cases second : j = 0
    · subst second
      rw [Point.along_zero, if_pos (Or.inr rfl), Option.toList_none, List.append_nil]
      exact before.leg (bend.first.leg (Nat.pos_of_ne_zero first))
    · rw [if_neg (by omega), Option.toList_some]
      have corner := before.leg (bend.first.leg (Nat.pos_of_ne_zero first))
      have whole := corner.leg (bend.second.leg (Nat.pos_of_ne_zero second))
      rw [octile_along, octile_along, Int.add_assoc, ← bend.cost] at whole
      exact whole

variable {cameFrom : Layer t.extent (Option Point)} {done : List Node} {m : Node}
  {s : Search t.extent} {goal : Point}

/-- Walking back from a closed node gives a trail to it, by induction over the closed nodes: every
link leads to a node that was closed earlier, so a step for each closed node is enough.
-/
theorem Recorded.trail (recorded : t.Recorded start cameFrom done) (member : m ∈ done) {k : Nat}
    (enough : done.length ≤ k)
    : t.Trail start (walkBack cameFrom k m.cell).reverse m.cell m.cost := by
  induction recorded generalizing m k with
  | nil => cases member
  | @cons m' earlier sound _ ih =>
      rw [List.length_cons] at enough
      rcases List.mem_cons.mp member with rfl | old
      · obtain ⟨k, rfl⟩ := Nat.exists_eq_add_of_le' (Nat.le_trans (Nat.le_add_left 1 _) enough)
        rw [walkBack]
        cases sound.link with
        | root isStart origin =>
            subst isStart
            simp only [origin]
            exact .start sound.walk.walkable
        | @bend b d f i j before link clear cell moved cost =>
            have trail := (ih before (Nat.le_of_succ_le_succ enough)).bend clear moved
            rw [← cell, ← cost] at trail
            simp only [link, List.cons_append, List.reverse_cons, List.reverse_append]
            rw [show (turningPoint? m.cell b.cell).toList.reverse
              = (turningPoint? m.cell b.cell).toList by cases turningPoint? m.cell b.cell <;> rfl]
            exact trail
      · exact ih old (Nat.le_of_succ_le enough)

/-- The path of a search that has just closed a node is a trail to it. -/
theorem Ledger.trail (ledger : t.Ledger start goal (m :: done) s)
    : t.Trail start (s.path m.cell) m.cell m.cost :=
  ledger.recorded.trail List.mem_cons_self ledger.length_le

end Terrain

end Wayfinding
