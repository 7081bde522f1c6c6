import Wayfinding.Navigator.Basic
import Wayfinding.Proofs.Parts

/-! The connected parts of a map, marked in the buffers that an earlier marking has left. Every part
begins with an emptied queue, and the labels are all taken back first, so they are those of a map
that was never marked.
-/

namespace Wayfinding.Navigator

variable {t : Terrain}

/-- The same cells are labelled, by induction over the rounds. -/
theorem spread_snd (t : Terrain) (label rounds : Nat) (pending : List Point)
    (labels : Layer t.extent Nat)
    : (spread t label rounds pending labels).2 = t.spread label rounds pending labels := by
  induction rounds generalizing pending labels with
  | zero => rfl
  | succ rounds ih =>
      cases pending with
      | nil => rfl
      | cons p pending => exact ih _ _

theorem addComponent_snd (t : Terrain) (marking : List Point × Components t.extent) (p : Point)
    : (addComponent t marking p).2 = t.addComponent marking.2 p := by
  rw [addComponent, Terrain.addComponent]
  split
  · exact congrArg (Components.mk _) (spread_snd ..)
  · rfl

/-- The parts are numbered in the same way, by induction over the cells. -/
theorem foldl_addComponent_snd (t : Terrain) (cells : List Point)
    (marking : List Point × Components t.extent)
    : (cells.foldl (addComponent t) marking).2 = cells.foldl t.addComponent marking.2 := by
  induction cells generalizing marking with
  | nil => rfl
  | cons p cells ih =>
      rw [List.foldl_cons, List.foldl_cons, ih, addComponent_snd]

theorem freshLabels_eq (n : Navigator) : n.freshLabels = .fill n.extent 0 := by
  rw [freshLabels]
  split
  · rfl
  · exact Layer.refill_eq_fill _ 0

/-- Nothing is left of labels from before. -/
theorem marking_snd (n : Navigator) (queue : List Point)
    : (n.extent.points.foldl (addComponent n.terrain) (queue, ⟨0, n.freshLabels⟩)).2
      = n.terrain.components := by
  rw [foldl_addComponent_snd, freshLabels_eq]
  rfl

/-- A map is marked with buffers as without. -/
theorem markComponents_eq (n : Navigator)
    : n.markComponents.toGridMap = n.toGridMap.markComponents :=
  congrArg (fun c => ({ n.toGridMap with components := some c } : GridMap)) (n.marking_snd n.queue)

/-- The queue from before is left if no part begins, and has no effect on what is left if one does;
by induction over the cells.
-/
theorem foldl_addComponent_fst (cells : List Point) (c : Components t.extent)
    : (∀ queue, (cells.foldl (addComponent t) (queue, c)).1 = queue)
      ∨ ∃ left, ∀ queue, (cells.foldl (addComponent t) (queue, c)).1 = left := by
  induction cells generalizing c with
  | nil => exact .inl fun _ => rfl
  | cons p cells ih =>
      by_cases begins : (t.walkable p && c.labels.get p 0 == 0) = true
      · have begun (queue : List Point)
            : addComponent t (queue, c) p = addComponent t ([], c) p := by
          rw [addComponent, addComponent, if_pos begins, if_pos begins]
        simp only [List.foldl_cons, begun]
        exact .inr ⟨_, fun _ => rfl⟩
      · have kept (queue : List Point) : addComponent t (queue, c) p = (queue, c) := by
          rw [addComponent, if_neg begins]
        simp only [List.foldl_cons, kept]
        exact ih c

/-- Marking the parts again changes nothing, not even in the queue. -/
theorem markComponents_markComponents (n : Navigator)
    : n.markComponents.markComponents = n.markComponents := by
  let mark (queue : List Point) : List Point × Components n.extent :=
    n.extent.points.foldl (addComponent n.terrain) (queue, ⟨0, n.freshLabels⟩)
  have again : n.markComponents.markComponents
      = { n with
          components := some (mark (mark n.queue).1).2
          queue := (mark (mark n.queue).1).1 } := by
    have fresh : n.markComponents.freshLabels = n.freshLabels :=
      (freshLabels_eq _).trans n.freshLabels_eq.symm
    rw [markComponents, fresh]
    rfl
  have parts : (mark (mark n.queue).1).2 = (mark n.queue).2 :=
    (n.marking_snd _).trans (n.marking_snd _).symm
  have queue : (mark (mark n.queue).1).1 = (mark n.queue).1 := by
    rcases foldl_addComponent_fst (t := n.terrain) n.extent.points ⟨0, n.freshLabels⟩ with
      kept | ⟨left, same⟩
    · exact kept _
    · exact (same _).trans (same _).symm
  rw [again, parts, queue]
  rfl

/-- Whatever was marked before, the marked parts are the connected ones, their number fits a word of
32 bits if the number of cells does, and marking them again changes nothing.
-/
theorem markComponents_parted (n : Navigator) (small : n.extent.area < 4294967296)
    : ∃ c : Components n.extent,
        n.markComponents.components = some c
        ∧ n.terrain.Parted c
        ∧ c.count < 4294967296
        ∧ (∀ p, n.extent.contains p = true → n.markComponents.componentOf p = .ok (c.label p))
        ∧ n.markComponents.markComponents = n.markComponents := by
  have numbered := n.terrain.numbered_components
  have marked := n.markComponents_eq
  refine ⟨n.terrain.components, congrArg some (n.marking_snd n.queue), numbered.parted, ?_, ?_,
    n.markComponents_markComponents⟩
  · exact Nat.lt_of_le_of_lt numbered.count_le small
  · intro p inside
    rw [marked, GridMap.componentOf, GridMap.checkInside]
    exact congrArg (Except.map _) (if_pos inside)

/-- A map that is marked as one part, with a cell left in the queue. -/
def mislabelled : Navigator :=
  { ofMap GridMap.squeeze with components := some ⟨3, .fill _ 3⟩, queue := [⟨1, 1⟩] }

/-- The way between the two obstacles that touch at a corner joins no parts. -/
theorem markComponents_parted_mislabelled
    : mislabelled.extent.area < 4294967296
      ∧ mislabelled.componentOf ⟨1, 0⟩ = .ok 3
      ∧ mislabelled.markComponents.componentOf ⟨1, 0⟩ = .ok 0
      ∧ mislabelled.markComponents.componentOf ⟨0, 1⟩ = .ok 1
      ∧ mislabelled.markComponents.componentOf ⟨1, 2⟩ = .ok 2
      ∧ ∃ c : Components mislabelled.extent,
          mislabelled.markComponents.components = some c
          ∧ mislabelled.terrain.Parted c
          ∧ c.count < 4294967296
          ∧ mislabelled.markComponents.markComponents = mislabelled.markComponents := by
  have small : mislabelled.extent.area < 4294967296 := by decide
  obtain ⟨c, marked, parted, fits, -, again⟩ := markComponents_parted mislabelled small
  exact ⟨small, by decide +kernel, by decide +kernel, by decide +kernel, by decide +kernel, c,
    marked, parted, fits, again⟩

end Wayfinding.Navigator
