import Wayfinding.Proofs.Search.Ledger

/-! Where the cells of a search come from. Each of them but the start was reached from a cell that
had been closed before, and links change only while their cells are not closed. So going back from
cell to cell leads to the start, in fewer steps than there are cells.
-/

namespace Wayfinding

/-- The cell that some steps back lead to, each to the cell from which the one before it was reached.
-/
def back {e : Extent} (cameFrom : Layer e (Option Point)) : Nat → Point → Option Point
  | 0, p => some p
  | k + 1, p => (cameFrom.get p none).bind (back cameFrom k)

theorem back_succ {e : Extent} {cameFrom : Layer e (Option Point)} {p q : Point} {k : Nat}
    (link : cameFrom.get p none = some q)
    : back cameFrom (k + 1) p = back cameFrom k q := by
  rw [back, link, Option.bind_some]

namespace Terrain

variable {t : Terrain} {start goal : Point} {done : List Node} {n : Node}
  {cameFrom : Layer t.extent (Option Point)} {s : Search t.extent}

/-- The cell of the node was reached from that of a listed one, and its cost is that of the way
there and of the way between the two.
-/
def Descends (t : Terrain) (cameFrom : Layer t.extent (Option Point)) (listed : List Node)
    (n : Node) : Prop :=
  ∃ m ∈ listed,
    cameFrom.get n.cell none = some m.cell ∧ n.cost = m.cost + octile m.cell n.cell

theorem Descends.mono {listed more : List Node} (descends : t.Descends cameFrom listed n)
    (part : listed ⊆ more)
    : t.Descends cameFrom more n := by
  obtain ⟨m, member, link, cost⟩ := descends
  exact ⟨m, part member, link, cost⟩

/-- A node with a link is that of the start or descends from one closed earlier. -/
theorem Link.cases {earlier : List Node} (link : t.Link start cameFrom earlier n)
    : n.cell = start ∧ cameFrom.get n.cell none = none ∨ t.Descends cameFrom earlier n := by
  cases link with
  | root isStart origin => exact .inl ⟨by rw [isStart], origin⟩
  | bend before recorded _ _ _ cost => exact .inr ⟨_, before, recorded, cost⟩

/-- The node closed first is that of the start, by induction over the closed nodes. -/
theorem Recorded.root (recorded : t.Recorded start cameFrom done) (some : done ≠ [])
    : cameFrom.get start none = none := by
  induction recorded with
  | nil => exact absurd rfl some
  | @cons n earlier sound _ ih =>
      cases earlier with
      | nil =>
          rcases sound.link.cases with ⟨rfl, origin⟩ | ⟨m, member, _⟩
          · exact origin
          · cases member
      | cons => exact ih (List.cons_ne_nil _ _)

/-- A closed node is that of the start or descends from a closed one, by induction over them. -/
theorem Recorded.descends (recorded : t.Recorded start cameFrom done) (member : n ∈ done)
    : n.cell = start ∨ t.Descends cameFrom done n := by
  induction recorded with
  | nil => cases member
  | cons sound _ ih =>
      rcases List.mem_cons.mp member with rfl | old
      · exact sound.link.cases.imp And.left fun descends =>
          descends.mono (List.subset_cons_self _ _)
      · exact (ih old).imp_right fun descends => descends.mono (List.subset_cons_self _ _)

/-- Going back from a closed node leads to the start, by induction over the closed nodes: each step
leads to one that was closed earlier.
-/
theorem Recorded.exists_back (recorded : t.Recorded start cameFrom done) (member : n ∈ done)
    : ∃ k < done.length, back cameFrom k n.cell = some start := by
  induction recorded generalizing n with
  | nil => cases member
  | cons sound _ ih =>
      rw [List.length_cons]
      rcases List.mem_cons.mp member with rfl | old
      · rcases sound.link.cases with ⟨rfl, _⟩ | ⟨m, before, link, _⟩
        · exact ⟨0, Nat.succ_pos _, rfl⟩
        · obtain ⟨k, short, led⟩ := ih before
          exact ⟨k + 1, Nat.succ_lt_succ short, (back_succ link).trans led⟩
      · obtain ⟨k, short, led⟩ := ih old
        exact ⟨k, Nat.lt_succ_of_lt short, led⟩

/-- The start was reached from nowhere. -/
theorem Ledger.root (ledger : t.Ledger start goal done s) : s.cameFrom.get start none = none := by
  cases done with
  | nil =>
      rcases ledger.begun with waits | closed
      · rcases (ledger.waiting _ waits).link.cases with ⟨_, origin⟩ | ⟨m, member, _⟩
        · exact origin
        · cases member
      · cases closed
  | cons => exact ledger.recorded.root (List.cons_ne_nil _ _)

/-- A node that waits or is closed is that of the start or descends from a closed one. -/
theorem Ledger.descends (ledger : t.Ledger start goal done s) (known : s.Waits n ∨ n ∈ done)
    : n.cell = start ∨ t.Descends s.cameFrom done n := by
  rcases known with waits | closed
  · exact (ledger.waiting n waits).link.cases.imp_left And.left
  · exact ledger.recorded.descends closed

/-- Going back from a node that waits or is closed leads to the start in fewer steps than there are
cells. Where the node waits, its own cell is not among the closed ones.
-/
theorem Ledger.exists_back (ledger : t.Ledger start goal done s) (known : s.Waits n ∨ n ∈ done)
    : ∃ k < t.extent.area, back s.cameFrom k n.cell = some start := by
  rcases known with waits | closed
  · have sound := ledger.waiting n waits
    rcases sound.link.cases with ⟨same, _⟩ | ⟨m, before, link, _⟩
    · exact ⟨0, t.extent.area_pos, congrArg some same⟩
    · obtain ⟨k, short, led⟩ := ledger.recorded.exists_back before
      have room := ledger.length_lt sound.inside (ledger.not_mem_of_waits waits)
      exact ⟨k + 1, Nat.lt_of_le_of_lt short room, (back_succ link).trans led⟩
  · obtain ⟨k, short, led⟩ := ledger.recorded.exists_back closed
    exact ⟨k, Nat.lt_of_lt_of_le short ledger.length_le, led⟩

end Terrain

end Wayfinding
