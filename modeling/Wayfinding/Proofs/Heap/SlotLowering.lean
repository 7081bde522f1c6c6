import Wayfinding.Proofs.Heap.Lowering
import Wayfinding.Proofs.Heap.Plantings

/-! Lowering a key in slots prunes the trees as it does there. The slots work from the element
upwards, the trees from the root down and back, so what is still to do after each tree on the way up
is compared with what the tree lost.
-/

namespace Wayfinding

variable {κ α : Type} {h : Nat} {k : κ}

/-- The vertex with another key if the handle names it. -/
def Vertex.rekey (h : Nat) (k : κ) (v : Vertex κ α) : Vertex κ α :=
  if v.handle = h then { v with key := k } else v

theorem Vertex.map_rekey_of_not_mem {vs : List (Vertex κ α)} (other : h ∉ vs.map Vertex.handle)
    : vs.map (Vertex.rekey h k) = vs := by
  refine (List.map_congr_left fun v hv => ?_).trans (List.map_id vs)
  exact if_neg fun same => other (List.mem_map.mpr ⟨v, hv, same⟩)

@[simp] theorem Vertex.handle_rekey (v : Vertex κ α) : (v.rekey h k).handle = v.handle := by
  rw [rekey]
  split <;> rfl

theorem Vertex.map_handle_rekey (vs : List (Vertex κ α))
    : (vs.map (Vertex.rekey h k)).map Vertex.handle = vs.map Vertex.handle := by
  simp [Function.comp_def]

namespace FibonacciHeap

variable [LT κ] [DecidableLT κ] {parent : κ} {ts us : List (Tree κ α)}

/-- One of the trees is pruned and put back among the others or cut off, by induction over them. -/
theorem exists_of_lowerForest? {p : Pruned κ α (List (Tree κ α))}
    (found : lowerForest? h k parent ts = some p)
    : ∃ l t r q,
        ts = l ++ t :: r
        ∧ lowerTree? h k t = some q
        ∧ p = { reattach parent h q r with rest := l ++ (reattach parent h q r).rest } := by
  induction ts generalizing p with
  | nil => simp [lowerForest?] at found
  | cons t ts ih =>
      rw [lowerForest?] at found
      split at found
      · rename_i q here
        cases found
        exact ⟨[], t, ts, q, rfl, here, rfl⟩
      · split at found
        · rename_i q later
          cases found
          obtain ⟨l, u, r, q', rfl, pruned, rfl⟩ := ih later
          exact ⟨t :: l, u, r, q', rfl, pruned, rfl⟩
        · simp at found

/-- One of the roots is pruned, and what is cut off comes last, by induction over the roots. -/
theorem exists_of_lowerRoots? (found : lowerRoots? h k ts = some us)
    : ∃ l t r p,
        ts = l ++ t :: r
        ∧ lowerTree? h k t = some p
        ∧ us = l ++ p.rest :: r ++ p.cuts := by
  induction ts generalizing us with
  | nil => simp [lowerRoots?] at found
  | cons t ts ih =>
      rw [lowerRoots?] at found
      split at found
      · rename_i p here
        cases found
        exact ⟨[], t, ts, p, rfl, here, rfl⟩
      · obtain ⟨rest, later, rfl⟩ := Option.map_eq_some_iff.mp found
        obtain ⟨l, u, r, p, rfl, pruned, rfl⟩ := ih later
        exact ⟨t :: l, u, r, p, rfl, pruned, rfl⟩

end FibonacciHeap

namespace Slots

open FibonacciHeap Wayfinding.Tree

variable {s : Slots κ α} {roots : List Nat} {vs extra : List (Vertex κ α)} {u v : Vertex κ α}
  {m : Nat} {ms : List Nat} {t : Tree κ α}

theorem Holds.length_le (holds : s.Holds roots vs) : vs.length ≤ s.size := by
  have part : vs.map Vertex.handle ⊆ List.range s.size := by
    intro i hi
    obtain ⟨v, hv, rfl⟩ := List.mem_map.mp hi
    exact List.mem_range.mpr (holds.lt hv)
  simpa using (holds.distinct.subperm part).length_le

theorem Holds.exists_child (holds : s.Holds roots vs) (hu : u ∈ vs) (hv : v ∈ vs)
    (child : v.handle ∈ u.children)
    : ∃ a, s.slot? v.handle = some a ∧ a.toContent = v.content ∧ a.parent = some u.handle := by
  obtain ⟨a, found, same⟩ := holds.exists_slot? hv
  refine ⟨a, found, same, ?_⟩
  simpa [parent?, links?, found] using (holds.rings u hu).parents _ child

theorem Holds.exists_root (holds : s.Holds roots vs) (hv : v ∈ vs) (root : v.handle ∈ roots)
    : ∃ a, s.slot? v.handle = some a ∧ a.parent = none := by
  obtain ⟨a, found, same⟩ := holds.exists_slot? hv
  exact ⟨a, found, by simpa [parent?, links?, found] using holds.roots.parents _ root⟩

-----------------------------------------------------------------------------------------
-- A child of a tree
-----------------------------------------------------------------------------------------

section

variable {e : Entry κ α} {mark : Bool} {l r : List (Tree κ α)} {c : Tree κ α}

/-- The root of a tree and one of its children come first among the vertices. -/
private theorem vertices_perm (e : Entry κ α) (mark : Bool) (l r : List (Tree κ α)) (c : Tree κ α)
    : (node e mark (l ++ c :: r)).vertices.Perm
        ((node e mark (l ++ c :: r)).vertex :: c.vertex
          :: (forestVertices c.children ++ forestVertices (l ++ r))) := by
  rw [vertices_eq]
  refine List.Perm.cons _ ((forestVertices_perm List.perm_middle).trans ?_)
  rw [forestVertices_cons, vertices_eq]
  exact .rfl

/-- Cutting a child off makes its tree a root. -/
theorem Holds.cutTree
    (holds : s.Holds (m :: ms) ((node e mark (l ++ c :: r)).vertices ++ extra))
    : ∃ s',
        s.cut (some m) c.handle e.handle = some s'
        ∧ s'.size = s.size
        ∧ s'.Holds (m :: ms ++ [c.handle])
            ((node e mark (l ++ r)).vertices ++ (c.setMarked false).vertices ++ extra) := by
  have children : (node e mark (l ++ c :: r)).vertex.children
      = l.map handle ++ c.vertex.handle :: r.map handle := by
    simp [vertex_node]
  obtain ⟨s', cut, size, held⟩ :=
    (holds.perm ((vertices_perm e mark l r c).append_right extra)).cut children
  have after : ((node e mark (l ++ r)).vertex :: (c.setMarked false).vertex
      :: (forestVertices c.children ++ forestVertices (l ++ r))).Perm
        ((node e mark (l ++ r)).vertices ++ (c.setMarked false).vertices) := by
    rw [vertices_eq (node e mark (l ++ r)), vertices_eq (c.setMarked false), children_setMarked]
    exact ((List.perm_append_comm.cons _).trans List.perm_middle.symm).cons _
  have root : ({ (node e mark (l ++ c :: r)).vertex with
      children := l.map handle ++ r.map handle } : Vertex κ α) = (node e mark (l ++ r)).vertex := by
    simp [vertex_node]
  rw [root] at held
  rw [vertex_setMarked] at after
  exact ⟨s', cut, size, held.perm (after.append_right extra)⟩

/-- Marking a child changes its mark alone. -/
theorem Holds.markTree
    (holds : s.Holds roots ((node e mark (l ++ c :: r)).vertices ++ extra))
    : ∃ s',
        s.edit c.handle (fun t => { t with marked := true }) = some s'
        ∧ s'.size = s.size
        ∧ s'.Holds roots ((node e mark (l ++ c.setMarked true :: r)).vertices ++ extra) := by
  have before := ((vertices_perm e mark l r c).trans (.swap _ _ _)).append_right extra
  obtain ⟨s', edited, size, held⟩ :=
    (holds.perm before).rewrite (w := (c.setMarked true).vertex)
      (fun content => { content with marked := true }) (by simp) (by simp)
      (by simp [Vertex.content])
  have after :=
    ((vertices_perm e mark l r (c.setMarked true)).trans (.swap _ _ _)).append_right extra
  have root : (node e mark (l ++ c.setMarked true :: r)).vertex
      = (node e mark (l ++ c :: r)).vertex := by
    simp [vertex_node]
  rw [root, children_setMarked] at after
  exact ⟨s', edited, size, held.perm after.symm⟩

/-- The slot of a child shows its parent and the mark, and the slot of the parent its key. -/
theorem Holds.exists_family
    (holds : s.Holds roots ((node e mark (l ++ c :: r)).vertices ++ extra))
    : ∃ a b,
        s.slot? c.handle = some a
        ∧ a.parent = some e.handle
        ∧ a.marked = c.marked
        ∧ s.slot? e.handle = some b
        ∧ b.key = e.key := by
  have held := holds.perm ((vertices_perm e mark l r c).append_right extra)
  obtain ⟨a, foundA, sameA, parent⟩ :=
    held.exists_child (u := (node e mark (l ++ c :: r)).vertex) (v := c.vertex) (by simp) (by simp)
      (by simp [vertex_node])
  obtain ⟨b, foundB, sameB⟩ :=
    held.exists_slot? (v := (node e mark (l ++ c :: r)).vertex) (by simp)
  exact ⟨a, b, foundA, parent, congrArg Content.marked sameA, foundB, congrArg Content.key sameB⟩

end

-----------------------------------------------------------------------------------------
-- From the element upwards
-----------------------------------------------------------------------------------------

variable [LinearOrder κ]

/-- What is still to do once a tree `t` has become `p`: nothing was done yet if its root is the
element whose key was lowered, the cuts go on from its root if that has lost a child, and otherwise
nothing is left.
-/
inductive Remains (m h : Nat) (k : κ) (n : Nat) (result : Option (Slots κ α)) (s : Slots κ α)
    (t : Tree κ α) (p : Pruned κ α (Tree κ α)) : Prop
  | check (named : p.rest.handle = h) (kept : p.lost = false)
    (same : result = s.detach (some m) h k)
  | cascade {f : Nat} (other : p.rest.handle ≠ h) (lost : p.lost = true)
    (steps : n + 2 ≤ f + t.vertices.length)
    (same : result = s.cascade (some m) f p.rest.handle)
  | done (other : p.rest.handle ≠ h) (kept : p.lost = false) (same : result = some s)

/-- A child that is not the element whose key was lowered is cut off if it has lost a second child,
and marked if it has lost a first one.
-/
private theorem reattach_of_ne {q : Pruned κ α (Tree κ α)} (parent : κ) (siblings : List (Tree κ α))
    (other : q.rest.handle ≠ h)
    : reattach parent h q siblings
      = if q.lost = true ∧ q.rest.marked = true then
          ⟨siblings, q.cuts ++ [q.rest.setMarked false], true⟩
        else if q.lost then ⟨q.rest.setMarked true :: siblings, q.cuts, false⟩
        else ⟨q.rest :: siblings, q.cuts, false⟩ := by
  simp [reattach, other]

/-- The element whose key was lowered is cut off if its key is below that of its parent. -/
private theorem reattach_of_eq {q : Pruned κ α (Tree κ α)} (parent : κ) (siblings : List (Tree κ α))
    (named : q.rest.handle = h) (kept : q.lost = false)
    : reattach parent h q siblings
      = if q.rest.key < parent then ⟨siblings, q.cuts ++ [q.rest.setMarked false], true⟩
        else ⟨q.rest :: siblings, q.cuts, false⟩ := by
  simp [reattach, named, kept]

/-- The slots hold what became of a tree, with whatever was cut off of it as the last roots, and
what remains to be done for it gives the result.
-/
def Prunes (m : Nat) (ms : List Nat) (h : Nat) (k : κ) (n : Nat) (result : Option (Slots κ α))
    (extra : List (Vertex κ α)) (t : Tree κ α) (p : Pruned κ α (Tree κ α)) : Prop :=
  ∃ s : Slots κ α,
    s.size = n
    ∧ s.Holds (m :: (ms ++ p.cuts.map handle))
        (p.rest.vertices ++ (forestVertices p.cuts ++ extra))
    ∧ Remains m h k n result s t p

section

variable {e : Entry κ α} {mark : Bool} {l r : List (Tree κ α)} {c : Tree κ α}
  {q : Pruned κ α (Tree κ α)} {n f : Nat} {result : Option (Slots κ α)}

/-- The cuts go on from the parent of a child that was cut off. -/
private theorem prunes_cut
    (holds : s.Holds (m :: (ms ++ q.cuts.map handle))
      ((node e mark (l ++ q.rest :: r)).vertices ++ (forestVertices q.cuts ++ extra)))
    (size : s.size = n) (other : e.handle ≠ h)
    (steps : n + 2 ≤ f + (node e mark (l ++ c :: r)).vertices.length)
    (same : ∀ s', s.cut (some m) q.rest.handle e.handle = some s' → s'.size = s.size
      → result = s'.cascade (some m) f e.handle)
    : Prunes m ms h k n result extra (node e mark (l ++ c :: r))
        ⟨node e mark (l ++ r), q.cuts ++ [q.rest.setMarked false], true⟩ := by
  obtain ⟨s', cut, size', held⟩ := holds.cutTree
  refine ⟨s', size'.trans size, ?_, .cascade other rfl steps (same s' cut size')⟩
  have perm : ((node e mark (l ++ r)).vertices ++ (q.rest.setMarked false).vertices
      ++ (forestVertices q.cuts ++ extra)).Perm
        ((node e mark (l ++ r)).vertices
          ++ (forestVertices (q.cuts ++ [q.rest.setMarked false]) ++ extra)) := by
    rw [forestVertices_append, forestVertices_cons, forestVertices_nil, List.append_nil,
      List.append_assoc]
    refine List.Perm.append_left _ ?_
    rw [← List.append_assoc]
    exact List.perm_append_comm.append_right extra
  have roots : m :: (ms ++ q.cuts.map handle) ++ [q.rest.handle]
      = m :: (ms ++ (q.cuts ++ [q.rest.setMarked false]).map handle) := by simp
  rw [roots] at held
  exact held.perm perm

/-- What remains to be done for a child is done as its parent takes it back. -/
private theorem Prunes.reattach
    (prunes : Prunes m ms h k n result
      ((node e mark (l ++ q.rest :: r)).vertex :: (forestVertices (l ++ r) ++ extra)) c q)
    (other : e.handle ≠ h) (small : c.vertices.length ≤ n)
    (lowered : q.rest.handle = h → q.rest.key = k)
    : Prunes m ms h k n result extra (node e mark (l ++ c :: r))
        ⟨node e mark (l ++ (FibonacciHeap.reattach e.key h q r).rest),
          (FibonacciHeap.reattach e.key h q r).cuts,
          (FibonacciHeap.reattach e.key h q r).lost⟩ := by
  obtain ⟨s, size, held, remains⟩ := prunes
  have larger : c.vertices.length + 1 ≤ (node e mark (l ++ c :: r)).vertices.length := by
    simp only [vertices_eq (node e mark (l ++ c :: r)), Tree.children, forestVertices_append,
      forestVertices_cons, List.length_cons, List.length_append]
    omega
  have positive : 1 ≤ c.vertices.length := by simp [vertices_eq]
  have holds : s.Holds (m :: (ms ++ q.cuts.map handle))
      ((node e mark (l ++ q.rest :: r)).vertices ++ (forestVertices q.cuts ++ extra)) := by
    have perm : (q.rest.vertices ++ ((node e mark (l ++ q.rest :: r)).vertex
        :: forestVertices (l ++ r))).Perm (node e mark (l ++ q.rest :: r)).vertices := by
      rw [vertices_eq (node e mark (l ++ q.rest :: r))]
      exact List.perm_middle.trans ((forestVertices_perm List.perm_middle).symm.cons _)
    refine held.perm (List.Perm.trans ?_ (perm.append_right (forestVertices q.cuts ++ extra)))
    rw [List.append_assoc, List.cons_append]
    refine List.Perm.append_left _ (List.perm_middle.trans (List.Perm.cons _ ?_))
    rw [← List.append_assoc, ← List.append_assoc]
    exact List.perm_append_comm.append_right extra
  obtain ⟨a, b, foundA, parent, marked, foundB, key⟩ := holds.exists_family
  -- What the slots do at the child is what its parent decides when it takes the child back.
  cases remains with
  | check named kept same =>
      rw [reattach_of_eq e.key r named kept, lowered named]
      rw [detach, ← named, foundA, Option.bind_eq_bind, Option.bind_some] at same
      simp only [parent, foundB, key, Option.bind_eq_bind, Option.bind_some] at same
      by_cases below : k < e.key
      · rw [if_pos below] at same ⊢
        refine prunes_cut (f := n) holds size other (by omega) fun s' cut size' => ?_
        rw [same, cut, Option.bind_some, size', size]
      · rw [if_neg below] at same ⊢
        exact ⟨s, size, holds, .done other rfl same⟩
  | @cascade f otherQ lost steps same =>
      obtain ⟨f, rfl⟩ : ∃ f', f = f' + 1 := Nat.exists_eq_add_one.mpr (by omega)
      rw [reattach_of_ne e.key r otherQ]
      rw [Slots.cascade, foundA, Option.bind_eq_bind, Option.bind_some] at same
      simp only [parent, marked, Option.bind_eq_bind] at same
      by_cases again : q.rest.marked = true
      · rw [if_pos again] at same
        rw [if_pos ⟨lost, again⟩]
        refine prunes_cut (f := f) holds size other (by omega) fun s' cut size' => ?_
        rw [same, cut, Option.bind_some]
      · obtain ⟨s', edited, size', held'⟩ := holds.markTree
        rw [if_neg again, edited] at same
        rw [if_neg fun both => again both.2, if_pos lost]
        exact ⟨s', size'.trans size, held', .done other rfl same⟩
  | done otherQ kept same =>
      rw [reattach_of_ne e.key r otherQ, if_neg (by simp [kept]), if_neg (by simp [kept])]
      exact ⟨s, size, holds, .done other rfl same⟩

end

/-- At a root nothing is left to do. -/
private theorem Remains.eq_some {p : Pruned κ α (Tree κ α)} {n : Nat} {result : Option (Slots κ α)}
    {a : Slot κ α} (remains : Remains m h k n result s t p)
    (slot : s.slot? p.rest.handle = some a) (parent : a.parent = none)
    (small : t.vertices.length ≤ n)
    : result = some s := by
  cases remains with
  | check named kept same =>
      rw [same, Slots.detach, ← named, slot, Option.bind_eq_bind, Option.bind_some]
      simp only [parent]
  | @cascade f other lost steps same =>
      obtain ⟨f, rfl⟩ : ∃ f', f = f' + 1 := Nat.exists_eq_add_one.mpr (by omega)
      rw [same, Slots.cascade, slot, Option.bind_eq_bind, Option.bind_some]
      simp only [parent]
  | done other kept same => exact same

omit [LinearOrder κ] in
private theorem Holds.nodup_of_rekey
    (holds : s.Holds roots (vs.map (Vertex.rekey h k) ++ extra))
    : (vs.map Vertex.handle).Nodup := by
  have all := holds.distinct
  rw [List.map_append, Vertex.map_handle_rekey] at all
  exact (List.nodup_append.mp all).1

/-- A lowered key changes a vertex of the tree that holds it and none of the others. -/
private theorem rekey_perm {l r : List (Tree κ α)} {c : Tree κ α} {q : Pruned κ α (Tree κ α)}
    (found : lowerTree? h k c = some q)
    (distinct : ((forestVertices (l ++ c :: r)).map Vertex.handle).Nodup)
    : ((forestVertices (l ++ c :: r)).map (Vertex.rekey h k)).Perm
        (c.vertices.map (Vertex.rekey h k) ++ forestVertices (l ++ r)) := by
  have split : (forestVertices (l ++ c :: r)).Perm (c.vertices ++ forestVertices (l ++ r)) :=
    forestVertices_perm List.perm_middle
  have there : h ∈ c.vertices.map Vertex.handle := by
    rw [map_handle_vertices]
    by_contra absent
    rw [lowerTree?_eq_none.mpr absent] at found
    cases found
  have elsewhere : h ∉ (forestVertices (l ++ r)).map Vertex.handle := by
    have all := (split.map Vertex.handle).nodup_iff.mp distinct
    rw [List.map_append] at all
    exact fun again => (List.nodup_append.mp all).2.2 h there h again rfl
  have perm := split.map (Vertex.rekey h k)
  rw [List.map_append, Vertex.map_rekey_of_not_mem elsewhere] at perm
  exact perm

/-- Lowering a key in a tree leaves slots that hold what became of it, by induction over the tree.
-/
theorem Holds.lowerTree {t : Tree κ α} {p : Pruned κ α (Tree κ α)} {extra : List (Vertex κ α)}
    (found : lowerTree? h k t = some p)
    (holds : s.Holds (m :: ms) (t.vertices.map (Vertex.rekey h k) ++ extra))
    : Prunes m ms h k s.size (s.detach (some m) h k) extra t p := by
  have distinct := holds.nodup_of_rekey
  have small : t.vertices.length ≤ s.size := by
    have all := holds.length_le
    rw [List.length_append, List.length_map] at all
    omega
  cases t with
  | node e mark cs =>
      rw [vertices_eq, List.map_cons] at holds distinct
      obtain ⟨fresh, distinctBelow⟩ := List.nodup_cons.mp distinct
      rw [lowerTree?] at found
      split at found
      -- The slots begin at the element itself, so below it there is nothing to compare.
      · rename_i named
        cases found
        refine ⟨s, rfl, ?_, .check named rfl rfl⟩
        have same : (forestVertices cs).map (Vertex.rekey h k) = forestVertices cs :=
          Vertex.map_rekey_of_not_mem (named ▸ fresh)
        simpa [vertices_eq, vertex_node, Tree.children, same, Vertex.rekey, named] using holds
      · rename_i other
        split at found
        · rename_i q below
          cases found
          obtain ⟨l, c, r, q, rfl, pruned, rfl⟩ := exists_of_lowerForest? below
          have entry := lowerTree?_entry pruned
          have ih : Prunes m ms h k s.size (s.detach (some m) h k)
              ((node e mark (l ++ c :: r)).vertex :: (forestVertices (l ++ r) ++ extra)) c q := by
            have root : (node e mark (l ++ c :: r)).vertex.rekey h k
                = (node e mark (l ++ c :: r)).vertex := if_neg other
            have perm := rekey_perm pruned distinctBelow
            have smaller : sizeOf c < sizeOf (node e mark (l ++ c :: r)) := by
              have below := List.sizeOf_lt_of_mem (show c ∈ l ++ c :: r by simp)
              rw [node.sizeOf_spec]
              omega
            rw [root] at holds
            refine Holds.lowerTree pruned (holds.perm ?_)
            refine List.Perm.trans ((perm.append_right extra).cons _) ?_
            rw [List.append_assoc]
            exact List.perm_middle.symm
          have root : (node e mark (l ++ c :: r)).vertex
              = (node e mark (l ++ q.rest :: r)).vertex := by
            simp [vertex_node, Tree.handle, entry]
          rw [root] at ih
          refine ih.reattach other ?_ fun named => ?_
          · simp [vertices_eq (node e mark (l ++ c :: r)), Tree.children] at small
            omega
          · rw [Tree.key, entry]
            exact Entry.key_rekey_of_eq (by simpa [Tree.handle, entry] using named)
        · simp at found
termination_by sizeOf t

/-- Lowering a key among the roots leaves slots that hold what became of them. -/
theorem Stores.detach {ts us : List (Tree κ α)} (found : lowerRoots? h k ts = some us)
    (holds : s.Holds (ts.map handle) ((forestVertices ts).map (Vertex.rekey h k) ++ extra))
    (first : ts.head?.map handle = some m)
    : ∃ s', s.detach (some m) h k = some s' ∧ s'.size = s.size ∧ s'.Stores us extra := by
  obtain ⟨l, t, r, p, rfl, pruned, rfl⟩ := exists_of_lowerRoots? found
  have distinct := holds.nodup_of_rekey
  obtain ⟨ms, roots⟩ : ∃ ms, (l ++ t :: r).map handle = m :: ms := by
    cases hl : l ++ t :: r with
    | nil => simp at hl
    | cons c cs =>
        rw [hl] at first
        exact ⟨cs.map handle, by rw [List.map_cons, Option.some.inj first]⟩
  rw [roots] at holds
  have perm := (rekey_perm pruned distinct).append_right extra
  rw [List.append_assoc] at perm
  have small := (holds.perm perm).length_le
  rw [List.length_append, List.length_map] at small
  obtain ⟨s', size, held, remains⟩ := (holds.perm perm).lowerTree pruned
  have handle : p.rest.handle = t.handle := by
    simp [Tree.handle, lowerTree?_entry pruned]
  obtain ⟨a, slot, parent⟩ := held.exists_root (v := p.rest.vertex) (by simp [vertices_eq]) (by
    have root : t.handle ∈ (l ++ t :: r).map Tree.handle := by simp
    rw [roots] at root
    rw [handle_vertex, handle]
    exact List.mem_append_left (p.cuts.map Tree.handle) root)
  refine ⟨s', remains.eq_some slot parent (by omega), size, ?_⟩
  · have trees : (l ++ p.rest :: r ++ p.cuts).map Tree.handle
        = m :: (ms ++ p.cuts.map Tree.handle) := by
      rw [List.map_append, ← List.cons_append, ← roots]
      simp [handle]
    have perm : (p.rest :: (p.cuts ++ (l ++ r))).Perm (l ++ p.rest :: r ++ p.cuts) := by
      refine List.Perm.trans ?_ List.perm_append_comm
      exact List.perm_middle.symm.trans (List.Perm.append_left _ List.perm_middle.symm)
    have vertices := (forestVertices_perm perm).append_right extra
    rw [forestVertices_cons, forestVertices_append, List.append_assoc,
      List.append_assoc] at vertices
    rw [Stores, trees]
    exact held.perm vertices

end Slots

end Wayfinding
