import Wayfinding.Proofs.Heap.Layout

/-! How slots hold whole trees, and what linking and cutting do to these. -/

namespace Wayfinding

variable {κ α : Type}

namespace Tree

-----------------------------------------------------------------------------------------
-- The vertices of trees
-----------------------------------------------------------------------------------------

/-- The root of a tree with the handles of its children. -/
def vertex (t : Tree κ α) : Vertex κ α where
  handle := t.handle
  key := t.key
  value := some t.entry.value
  marked := t.marked
  children := t.children.map handle

mutual

/-- All vertices of a tree, the root before those below it. -/
def vertices : Tree κ α → List (Vertex κ α)
  | node e m cs => (node e m cs).vertex :: forestVertices cs

/-- All vertices of a list of trees. -/
def forestVertices : List (Tree κ α) → List (Vertex κ α)
  | [] => []
  | t :: ts => t.vertices ++ forestVertices ts

end

theorem vertex_node (e : Entry κ α) (m : Bool) (cs : List (Tree κ α))
    : (node e m cs).vertex = ⟨e.handle, e.key, some e.value, m, cs.map handle⟩ := rfl

theorem vertices_eq (t : Tree κ α) : t.vertices = t.vertex :: forestVertices t.children := by
  cases t
  rfl

@[simp] theorem handle_vertex (t : Tree κ α) : t.vertex.handle = t.handle := rfl

@[simp] theorem forestVertices_nil : forestVertices ([] : List (Tree κ α)) = [] := rfl

@[simp] theorem forestVertices_cons (t : Tree κ α) (ts : List (Tree κ α))
    : forestVertices (t :: ts) = t.vertices ++ forestVertices ts := rfl

@[simp] theorem forestVertices_append (ts us : List (Tree κ α))
    : forestVertices (ts ++ us) = forestVertices ts ++ forestVertices us := by
  induction ts with
  | nil => rfl
  | cons t ts ih => simp [ih]

theorem vertex_mem_vertices (t : Tree κ α) : t.vertex ∈ t.vertices := by
  simp [vertices_eq]

theorem mem_forestVertices {ts : List (Tree κ α)} {v : Vertex κ α}
    : v ∈ forestVertices ts ↔ ∃ t ∈ ts, v ∈ t.vertices := by
  induction ts with
  | nil => simp
  | cons t ts ih => simp [ih]

/-- Reordering the trees reorders their vertices, by induction over the permutation. -/
theorem forestVertices_perm {ts us : List (Tree κ α)} (h : ts.Perm us)
    : (forestVertices ts).Perm (forestVertices us) := by
  induction h with
  | nil => exact .rfl
  | cons t _ ih => exact ih.append_left t.vertices
  | swap t u ts =>
      simp only [forestVertices_cons, ← List.append_assoc]
      exact List.perm_append_comm.append_right _
  | trans _ _ left right => exact left.trans right

mutual

/-- The vertices have the handles of the elements, by induction over the tree. -/
theorem map_handle_vertices (t : Tree κ α)
    : t.vertices.map Vertex.handle = t.entries.map Entry.handle := by
  cases t with
  | node e m cs =>
      rw [vertices, entries, List.map_cons, List.map_cons, map_handle_forestVertices cs]
      rfl
termination_by sizeOf t

theorem map_handle_forestVertices (ts : List (Tree κ α))
    : (forestVertices ts).map Vertex.handle = (forestEntries ts).map Entry.handle := by
  cases ts with
  | nil => rfl
  | cons t ts => simp [map_handle_vertices t, map_handle_forestVertices ts]
termination_by sizeOf ts

end

mutual

/-- The vertices carry the elements, by induction over the tree. -/
theorem map_entry?_vertices (t : Tree κ α) : t.vertices.map Vertex.entry? = t.entries.map some := by
  cases t with
  | node e m cs =>
      rw [vertices, entries, List.map_cons, List.map_cons, map_entry?_forestVertices cs]
      rfl
termination_by sizeOf t

theorem map_entry?_forestVertices (ts : List (Tree κ α))
    : (forestVertices ts).map Vertex.entry? = (forestEntries ts).map some := by
  cases ts with
  | nil => rfl
  | cons t ts => simp [map_entry?_vertices t, map_entry?_forestVertices ts]
termination_by sizeOf ts

end

theorem exists_vertex {ts : List (Tree κ α)} {e : Entry κ α} (he : e ∈ forestEntries ts)
    : ∃ v ∈ forestVertices ts, v.entry? = some e := by
  have member : some e ∈ (forestVertices ts).map Vertex.entry? := by
    rw [map_entry?_forestVertices]
    exact List.mem_map_of_mem he
  exact List.mem_map.mp member

theorem map_handle_subset (ts : List (Tree κ α))
    : ts.map handle ⊆ (forestVertices ts).map Vertex.handle := by
  rw [map_handle_forestVertices]
  exact (map_handle_sublist ts).subset

mutual

/-- The children of a vertex are vertices, by induction over the tree. -/
theorem children_subset_vertices {t : Tree κ α} {v : Vertex κ α} (hv : v ∈ t.vertices)
    : v.children ⊆ t.vertices.map Vertex.handle := by
  cases t with
  | node e m cs =>
      rw [vertices] at hv ⊢
      rcases List.mem_cons.mp hv with rfl | below
      · exact fun i hi => List.mem_cons_of_mem _ (map_handle_subset cs hi)
      · exact fun i hi => List.mem_cons_of_mem _ (children_subset_forestVertices below hi)
termination_by sizeOf t

theorem children_subset_forestVertices {ts : List (Tree κ α)} {v : Vertex κ α}
    (hv : v ∈ forestVertices ts)
    : v.children ⊆ (forestVertices ts).map Vertex.handle := by
  cases ts with
  | nil => simp at hv
  | cons t ts =>
      rw [forestVertices_cons, List.map_append]
      rcases List.mem_append.mp hv with here | later
      · exact fun i hi => List.mem_append_left _ (children_subset_vertices here hi)
      · exact fun i hi => List.mem_append_right _ (children_subset_forestVertices later hi)
termination_by sizeOf ts

end

@[simp] theorem vertex_setMarked (m : Bool) (t : Tree κ α)
    : (t.setMarked m).vertex = { t.vertex with marked := m } := by
  simp [vertex]

theorem vertex_adopt (t c : Tree κ α)
    : (t.adopt c).vertex = { t.vertex with children := t.vertex.children ++ [c.handle] } := by
  simp [vertex, children_adopt]

end Tree

namespace Slots

open Wayfinding.Tree

variable {s : Slots κ α} {l r l' r' ts : List (Tree κ α)} {t c : Tree κ α}
  {extra : List (Vertex κ α)}

-----------------------------------------------------------------------------------------
-- Slots that hold trees
-----------------------------------------------------------------------------------------

/-- The slots hold the vertices of these trees, with the ring of their roots, and some others. -/
def Stores (s : Slots κ α) (ts : List (Tree κ α)) (extra : List (Vertex κ α)) : Prop :=
  s.Holds (ts.map handle) (forestVertices ts ++ extra)

/-- The slot of a root has its key, its value and its degree. -/
theorem Stores.exists_slot? (stores : s.Stores ts extra) (ht : t ∈ ts)
    : ∃ a, s.slot? t.handle = some a ∧ a.toContent = t.vertex.content := by
  have member : t.vertex ∈ forestVertices ts ++ extra :=
    List.mem_append_left extra (mem_forestVertices.mpr ⟨t, ht, t.vertex_mem_vertices⟩)
  exact Holds.exists_slot? stores member

theorem Stores.nodup (stores : s.Stores ts extra) : (ts.map handle).Nodup :=
  stores.roots.distinct

/-- The trees may be read from any root on. -/
theorem Stores.rotate (stores : s.Stores (l ++ r) extra) : s.Stores (r ++ l) extra := by
  have roots := stores.roots
  rw [List.map_append] at roots
  have turned :=
    Holds.perm stores ((forestVertices_perm List.perm_append_comm).append_right extra)
  rw [Stores, List.map_append]
  exact ⟨roots.rotate, turned.contents, turned.rings, turned.distinct⟩

/-- Linking a root below another one lets the tree of that one adopt its tree. -/
theorem Stores.link (stores : s.Stores (l ++ c :: r) extra) (split : l ++ r = l' ++ t :: r')
    : ∃ s',
        s.link c.handle t.handle = some s'
        ∧ s'.size = s.size
        ∧ s'.Stores (l' ++ t.adopt c :: r') extra := by
  have trees : (l ++ c :: r).Perm (t :: c :: (l' ++ r')) := pair_perm split
  have before : (forestVertices (l ++ c :: r)).Perm
      (t.vertex :: c.vertex
        :: (forestVertices t.children ++ forestVertices c.children
          ++ forestVertices (l' ++ r'))) := by
    refine (forestVertices_perm trees).trans ?_
    simp only [forestVertices_cons, vertices_eq, List.cons_append, List.append_assoc]
    exact List.perm_middle.cons _
  have after : (forestVertices (l' ++ t.adopt c :: r')).Perm
      ((t.adopt c).vertex :: (c.setMarked false).vertex
        :: (forestVertices t.children ++ forestVertices c.children
          ++ forestVertices (l' ++ r'))) := by
    refine (forestVertices_perm List.perm_middle).trans ?_
    simp only [forestVertices_cons, vertices_eq, children_adopt, forestVertices_append,
      forestVertices_nil, children_setMarked, List.append_nil, List.cons_append, List.append_assoc]
    exact List.perm_middle.cons _
  have roots := congrArg (List.map handle) split
  simp only [List.map_append, List.map_cons] at roots
  have holds := Holds.perm stores (before.append_right extra)
  rw [List.map_append, List.map_cons, ← handle_vertex c] at holds
  obtain ⟨s', linked, size, held⟩ := holds.link
  refine ⟨s', linked, size, ?_⟩
  rw [Stores, List.map_append, List.map_cons, handle_adopt, ← roots]
  refine Holds.perm ?_ (after.symm.append_right extra)
  rw [vertex_adopt, vertex_setMarked]
  exact held

end Slots

end Wayfinding
