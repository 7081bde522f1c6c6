import Wayfinding.Proofs.Heap.Forests
import Wayfinding.Proofs.Heap.Rings

/-! How slots hold the trees of a heap. Each element of the trees is a vertex that knows the handles
of its children; slots hold vertices if what each slot contains is what the vertex says, and if the
roots and the children of each vertex form a ring of their own. A slot that is free is a vertex
without a value that no ring contains.
-/

namespace Wayfinding

/-- A slot in use or free: its handle, the key and the value, whether it is marked, and the handles
of its children.
-/
structure Vertex (κ α : Type) where
  handle : Nat
  key : κ
  value : Option α
  marked : Bool
  children : List Nat

variable {κ α : Type}

/-- What the slot of a vertex contains. -/
def Vertex.content (v : Vertex κ α) : Content κ α where
  key := v.key
  value := v.value
  marked := v.marked
  degree := v.children.length
  child := v.children.head?

/-- The element in the slot of a vertex. -/
def Vertex.entry? (v : Vertex κ α) : Option (Entry κ α) :=
  v.value.map fun value => ⟨v.handle, v.key, value⟩

namespace Slots

variable {s s' : Slots κ α} {i j x y : Nat} {l r roots roots' : List Nat}
  {vs ws : List (Vertex κ α)} {u v w : Vertex κ α}

-----------------------------------------------------------------------------------------
-- Slots that hold vertices
-----------------------------------------------------------------------------------------

/-- The slots hold these vertices, with these roots. -/
structure Holds (s : Slots κ α) (roots : List Nat) (vs : List (Vertex κ α)) : Prop where
  roots : s.Ring none roots
  contents : ∀ v ∈ vs, s.content? v.handle = some v.content
  rings : ∀ v ∈ vs, s.Ring (some v.handle) v.children
  distinct : (vs.map Vertex.handle).Nodup

theorem Holds.perm (holds : s.Holds roots vs) (perm : vs.Perm ws) : s.Holds roots ws where
  roots := holds.roots
  contents v hv := holds.contents v (perm.mem_iff.mpr hv)
  rings v hv := holds.rings v (perm.mem_iff.mpr hv)
  distinct := (perm.map Vertex.handle).nodup_iff.mp holds.distinct

theorem Holds.handle_ne (ws : List (Vertex κ α)) (holds : s.Holds roots (ws ++ vs)) (hw : w ∈ ws)
    (hv : v ∈ vs)
    : w.handle ≠ v.handle := by
  have distinct := holds.distinct
  rw [List.map_append] at distinct
  exact (List.nodup_append.mp distinct).2.2 _ (List.mem_map_of_mem hw) _ (List.mem_map_of_mem hv)

/-- A change that affects the roots and some vertices with their children leaves the others alone.
-/
theorem Holds.revise (ws ws' : List (Vertex κ α)) (holds : s.Holds roots (ws ++ vs))
    (links : ∀ j, j ∉ roots → (∀ w ∈ ws, j ∉ w.children) → s'.links? j = s.links? j)
    (contents : ∀ v ∈ vs, s'.content? v.handle = s.content? v.handle)
    (rootRing : s'.Ring none roots')
    (changed : ∀ w ∈ ws', s'.content? w.handle = some w.content
      ∧ s'.Ring (some w.handle) w.children)
    (handles : ws'.map Vertex.handle = ws.map Vertex.handle)
    : s'.Holds roots' (ws' ++ vs) := by
  refine ⟨rootRing, ?_, ?_, ?_⟩
  · intro v hv
    rcases List.mem_append.mp hv with new | old
    · exact (changed v new).1
    · exact (contents v old).trans (holds.contents v (List.mem_append_right ws old))
  · intro v hv
    rcases List.mem_append.mp hv with new | old
    · exact (changed v new).2
    · have ring := holds.rings v (List.mem_append_right ws old)
      refine ring.congr fun i hi => links i ?_ ?_
      · exact ring.apart holds.roots (by simp) i hi
      · intro w hw
        have other := holds.rings w (List.mem_append_left vs hw)
        refine ring.apart other ?_ i hi
        exact fun same => holds.handle_ne ws hw old (Option.some.inj same).symm
  · rw [List.map_append, handles, ← List.map_append]
    exact holds.distinct

/-- A change that affects the roots and the children of the vertex `u`, and what the slots of `u`
and `v` contain, leaves the others alone.
-/
theorem Holds.reviseTwo {u' v' : Vertex κ α} (holds : s.Holds roots (u :: v :: vs))
    (links : ∀ j, j ∉ roots → j ∉ u.children → s'.links? j = s.links? j)
    (contents : ∀ j, u.handle ≠ j → v.handle ≠ j → s'.content? j = s.content? j)
    (rootRing : s'.Ring none roots') (namedU : u'.handle = u.handle) (namedV : v'.handle = v.handle)
    (contentU : s'.content? u.handle = some u'.content)
    (ringU : s'.Ring (some u.handle) u'.children)
    (contentV : s'.content? v.handle = some v'.content) (below : v'.children = v.children)
    : s'.Holds roots' (u' :: v' :: vs) := by
  have ringV : s'.Ring (some v.handle) v.children := by
    have ring := holds.rings v (by simp)
    have differ : v.handle ≠ u.handle := (holds.handle_ne [u] (by simp) (by simp)).symm
    refine ring.congr fun i hi => links i (ring.apart holds.roots (by simp) i hi) ?_
    exact ring.apart (holds.rings u (by simp)) (fun same => differ (Option.some.inj same)) i hi
  refine holds.revise [u, v] [u', v'] ?_ ?_ rootRing ?_ (by simp [namedU, namedV])
  · exact fun j hj other => links j hj (other u (by simp))
  · intro w hw
    exact contents w.handle (holds.handle_ne [u, v] (by simp) hw)
      (holds.handle_ne [u, v] (by simp) hw)
  · intro w hw
    simp only [List.mem_cons, List.not_mem_nil, or_false] at hw
    rcases hw with rfl | rfl
    · rw [namedU]
      exact ⟨contentU, ringU⟩
    · rw [namedV, below]
      exact ⟨contentV, ringV⟩

theorem Holds.lt (holds : s.Holds roots vs) (hv : v ∈ vs) : v.handle < s.size := by
  obtain ⟨t, found, _⟩ := Option.map_eq_some_iff.mp (holds.contents v hv)
  exact slot?_isSome.mp (by simp [found])

theorem Holds.exists_slot? (holds : s.Holds roots vs) (hv : v ∈ vs)
    : ∃ t, s.slot? v.handle = some t ∧ t.toContent = v.content :=
  Option.map_eq_some_iff.mp (holds.contents v hv)

-----------------------------------------------------------------------------------------
-- Editing contents and links
-----------------------------------------------------------------------------------------

/-- Editing what a slot contains changes this alone. -/
theorem exists_revise (inside : i < s.size) (f : Content κ α → Content κ α)
    : ∃ s',
        s.edit i (fun t => { t with toContent := f t.toContent }) = some s'
        ∧ s'.size = s.size
        ∧ (∀ j, s'.links? j = s.links? j)
        ∧ ∀ j, s'.content? j = if i = j then (s.content? j).map f else s.content? j := by
  obtain ⟨s', edited, size, slots⟩ :=
    exists_edit inside fun t : Slot κ α => { t with toContent := f t.toContent }
  refine ⟨s', edited, size, fun j => ?_, fun j => ?_⟩
  · rw [links?, slots]
    split <;> simp [links?, Function.comp_def]
  · rw [content?, slots]
    split <;> simp [content?, Function.comp_def]

/-- Editing the links of a slot changes these alone. -/
theorem exists_relink (inside : i < s.size) (f : Links → Links)
    : ∃ s',
        s.edit i (fun t => { t with toLinks := f t.toLinks }) = some s'
        ∧ s'.size = s.size
        ∧ (∀ j, s'.content? j = s.content? j)
        ∧ ∀ j, s'.links? j = if i = j then (s.links? j).map f else s.links? j := by
  obtain ⟨s', edited, size, slots⟩ :=
    exists_edit inside fun t : Slot κ α => { t with toLinks := f t.toLinks }
  refine ⟨s', edited, size, fun j => ?_, fun j => ?_⟩
  · rw [content?, slots]
    split <;> simp [content?, Function.comp_def]
  · rw [links?, slots]
    split <;> simp [links?, Function.comp_def]

/-- A vertex may be given another content as long as its children stay. -/
theorem Holds.rewrite (holds : s.Holds roots (v :: vs)) (f : Content κ α → Content κ α)
    (handle : w.handle = v.handle) (children : w.children = v.children)
    (content : w.content = f v.content)
    : ∃ s',
        s.edit v.handle (fun t => { t with toContent := f t.toContent }) = some s'
        ∧ s'.size = s.size
        ∧ s'.Holds roots (w :: vs) := by
  obtain ⟨s', edited, size, links, contents⟩ := exists_revise (holds.lt (v := v) (by simp)) f
  refine ⟨s', edited, size, holds.revise [v] [w] ?_ ?_ ?_ ?_ (by simp [handle])⟩
  · exact fun j _ _ => links j
  · intro u hu
    rw [contents, if_neg (holds.handle_ne [v] (by simp) hu)]
  · exact holds.roots.congr fun i _ => links i
  · intro u hu
    rw [List.mem_singleton.mp hu, handle, children, content]
    refine ⟨?_, (holds.rings v (by simp)).congr fun i _ => links i⟩
    rw [contents, if_pos rfl, holds.contents v (by simp)]
    rfl

/-- Editing what one slot contains is a function of all vertices that changes the vertex of this
slot alone.
-/
theorem Holds.rewriteAll (holds : s.Holds roots vs) (inside : i < s.size)
    (f : Content κ α → Content κ α) (g : Vertex κ α → Vertex κ α)
    (handle : ∀ v, (g v).handle = v.handle) (children : ∀ v, (g v).children = v.children)
    (content : ∀ v, (g v).content = if i = v.handle then f v.content else v.content)
    : ∃ s',
        s.edit i (fun t => { t with toContent := f t.toContent }) = some s'
        ∧ s'.size = s.size
        ∧ s'.Holds roots (vs.map g) := by
  obtain ⟨s', edited, size, links, contents⟩ := exists_revise inside f
  refine ⟨s', edited, size, holds.roots.congr fun i _ => links i, fun w hw => ?_, fun w hw => ?_,
    ?_⟩
  · obtain ⟨v, hv, rfl⟩ := List.mem_map.mp hw
    rw [handle, content, contents, holds.contents v hv]
    split <;> rfl
  · obtain ⟨v, hv, rfl⟩ := List.mem_map.mp hw
    rw [handle, children]
    exact (holds.rings v hv).congr fun i _ => links i
  · rw [List.map_map, show Vertex.handle ∘ g = Vertex.handle from funext handle]
    exact holds.distinct

theorem Holds.sublist (holds : s.Holds roots vs) (part : ws.Sublist vs) : s.Holds roots ws where
  roots := holds.roots
  contents v hv := holds.contents v (part.subset hv)
  rings v hv := holds.rings v (part.subset hv)
  distinct := holds.distinct.sublist (part.map Vertex.handle)

-----------------------------------------------------------------------------------------
-- Linking a root below another one
-----------------------------------------------------------------------------------------

/-- A slot on its own joins the ring of the children below its parent as the last one. -/
theorem exists_attach (content : s.content? x = some u.content) (ring : s.Ring (some x) u.children)
    (single : s.Ring (some x) [y]) (fresh : y ∉ u.children)
    : ∃ s',
        s.attach y x = some s'
        ∧ s'.size = s.size
        ∧ (∀ j, s'.content? j
            = if x = j then some { u.content with child := (u.children ++ [y]).head? }
              else s.content? j)
        ∧ (∀ j, j ∉ y :: u.children → s'.links? j = s.links? j)
        ∧ s'.Ring (some x) (u.children ++ [y]) := by
  obtain ⟨t, found, same⟩ := Option.map_eq_some_iff.mp content
  have child : t.child = u.children.head? := by rw [same]; rfl
  have inside : x < s.size := slot?_isSome.mp (by simp [found])
  cases children : u.children with
  | nil =>
      rw [children] at child
      obtain ⟨s', edited, size, links, contents⟩ :=
        exists_revise inside fun c : Content κ α => { c with child := some y }
      refine ⟨s', ?_, size, fun j => ?_, fun j _ => links j, ?_⟩
      · simp [attach, found, child, edited]
      · rw [contents]
        split
        · rename_i same
          simp [← same, content]
        · rfl
      · exact single.congr fun j _ => links j
  | cons c cs =>
      rw [children] at child ring fresh
      obtain ⟨s', spliced, relinks, ring'⟩ := ring.splice (single.parents y (by simp)) fresh
      refine ⟨s', ?_, relinks.size, fun j => ?_, relinks.links, ring'⟩
      · simp [attach, found, child, spliced]
      · rw [relinks.content]
        split
        · rename_i same
          rw [← same, content]
          simp [Vertex.content, children]
        · rfl

/-- A slot on its own is given another parent. -/
theorem Ring.exists_reparent {p : Option Nat} (single : s.Ring p [i]) (q : Option Nat)
    : ∃ s',
        s.edit i (fun t => { t with parent := q }) = some s'
        ∧ s'.size = s.size
        ∧ (∀ j, s'.content? j = s.content? j)
        ∧ (∀ j, i ≠ j → s'.links? j = s.links? j)
        ∧ s'.Ring q [i] := by
  have present := single.parents i (by simp)
  obtain ⟨s', edited, size, contents, links⟩ :=
    exists_relink (lt_of_parent? present) fun t => { t with parent := q }
  refine ⟨s', edited, size, contents, fun j hj => by rw [links, if_neg hj], ?_⟩
  have joined := List.isChain_pair.mp (single.joined i rfl)
  obtain ⟨t, found, _⟩ := Option.map_eq_some_iff.mp present
  have found' : s'.links? i = some { t with parent := q } := by
    rw [links, if_pos rfl, found]
    rfl
  refine ⟨List.nodup_singleton i, ?_, ?_⟩
  · intro j hj
    rw [List.mem_singleton.mp hj, parent?, found']
    rfl
  · intro first hf
    cases hf
    refine List.isChain_pair.mpr ?_
    rw [Joined, right?, left?, found] at joined
    rw [Joined, right?, left?, found']
    exact joined

/-- A slot leaves its ring for one of its own under another parent. -/
theorem Ring.exists_leave {p : Option Nat} (ring : s.Ring p (l ++ i :: r)) (q : Option Nat)
    : ∃ s₁ s',
        s.unlink i = some s₁
        ∧ s₁.edit i (fun t => { t with parent := q }) = some s'
        ∧ s'.size = s.size
        ∧ (∀ j, s'.content? j = s.content? j)
        ∧ (∀ j, j ∉ l ++ i :: r → s'.links? j = s.links? j)
        ∧ s'.Ring p (l ++ r)
        ∧ s'.Ring q [i] := by
  have alone : i ∉ l ++ r :=
    (List.nodup_cons.mp (List.perm_middle.nodup_iff.mp ring.distinct)).1
  obtain ⟨s₁, unlinked, relinks, rest, single⟩ := ring.unlink
  obtain ⟨s₂, edited, size, contents, links, single'⟩ := single.exists_reparent q
  refine ⟨s₁, s₂, unlinked, edited, size.trans relinks.size,
    fun j => (contents j).trans (relinks.content j), fun j hj => ?_, ?_, single'⟩
  · have other : i ≠ j := fun same => hj (by simp [same])
    rw [links j other, relinks.links j hj]
  · exact rest.congr fun j hj => links j fun same => alone (same ▸ hj)

/-- Linking a root below another one makes it the last child there. -/
theorem Holds.link (holds : s.Holds (l ++ v.handle :: r) (u :: v :: vs))
    : ∃ s',
        s.link v.handle u.handle = some s'
        ∧ s'.size = s.size
        ∧ s'.Holds (l ++ r)
            ({ u with children := u.children ++ [v.handle] }
              :: { v with marked := false } :: vs) := by
  have insideU := holds.lt (v := u) (by simp)
  have insideV := holds.lt (v := v) (by simp)
  have ringU := holds.rings u (by simp)
  have differ : u.handle ≠ v.handle := holds.handle_ne [u] (by simp) (by simp)
  have alone : v.handle ∉ l ++ r :=
    (List.nodup_cons.mp (List.perm_middle.nodup_iff.mp holds.roots.distinct)).1
  have notBelow : v.handle ∉ u.children := fun below =>
    ringU.apart holds.roots (by simp) _ below (by simp)
  -- Step by step: in `s₂` the root `v` is on its own below `u`, in `s₃` it is in the ring there,
  -- `s₄` counts it and `s₅` takes its mark.
  obtain ⟨s₁, s₂, unlinked, edited₂, size₂, contents₂, links₂, rest₂, single₂⟩ :=
    holds.roots.exists_leave (some u.handle)
  have ringU₂ : s₂.Ring (some u.handle) u.children :=
    ringU.congr fun i hi => links₂ i (ringU.apart holds.roots (by simp) i hi)
  obtain ⟨s₃, attached, size₃, contents₃, links₃, ringU₃⟩ :=
    exists_attach ((contents₂ _).trans (holds.contents u (by simp))) ringU₂ single₂ notBelow
  obtain ⟨s₄, edited₄, size₄, links₄, contents₄⟩ :=
    exists_revise (s := s₃) (i := u.handle) (by rw [size₃, size₂]; exact insideU)
      fun c => { c with degree := c.degree + 1 }
  obtain ⟨s₅, edited₅, size₅, links₅, contents₅⟩ :=
    exists_revise (s := s₄) (i := v.handle) (by rw [size₄, size₃, size₂]; exact insideV)
      fun c => { c with marked := false }
  have links : ∀ j, j ≠ v.handle → j ∉ u.children → s₅.links? j = s₂.links? j := by
    intro j other below
    rw [links₅, links₄, links₃ j]
    rw [List.mem_cons, not_or]
    exact ⟨other, below⟩
  refine ⟨s₅, ?_, by rw [size₅, size₄, size₃, size₂], holds.reviseTwo ?_ ?_ ?_ rfl rfl ?_ ?_ ?_ rfl⟩
  · simp [Slots.link, unlinked, edited₂, attached, edited₄, edited₅]
  · intro j hj below
    rw [links j (fun same => hj (by simp [same])) below, links₂ j hj]
  · intro j otherU otherV
    rw [contents₅, if_neg otherV, contents₄, if_neg otherU, contents₃, if_neg otherU, contents₂]
  · refine rest₂.congr fun i hi => links i (fun same => alone (same ▸ hi)) ?_
    exact rest₂.apart ringU₂ (by simp) i hi
  · rw [contents₅, if_neg (Ne.symm differ), contents₄, if_pos rfl, contents₃, if_pos rfl]
    simp [Vertex.content]
  · exact ringU₃.congr fun i _ => (links₅ i).trans (links₄ i)
  · rw [contents₅, if_pos rfl, contents₄, if_neg differ, contents₃, if_neg differ, contents₂,
      holds.contents v (by simp)]
    rfl

-----------------------------------------------------------------------------------------
-- Cutting a child off
-----------------------------------------------------------------------------------------

/-- When a child is passed over, the first of its siblings is the distinguished one. -/
theorem exists_passOver (content : s.content? y = some u.content)
    (ring : s.Ring (some y) (l ++ x :: r)) (children : u.children = l ++ x :: r)
    : ∃ s',
        s.passOver x y = some s'
        ∧ s'.size = s.size
        ∧ (∀ j, s'.links? j = s.links? j)
        ∧ ∀ j, s'.content? j
            = if y = j then some { u.content with child := (l ++ r).head? } else s.content? j := by
  obtain ⟨b, foundB, same⟩ := Option.map_eq_some_iff.mp content
  have child : b.child = (l ++ x :: r).head? := by rw [same, ← children]; rfl
  have inside : y < s.size := slot?_isSome.mp (by simp [foundB])
  obtain ⟨a, foundA⟩ : ∃ a, s.slot? x = some a :=
    Slots.exists_slot? (lt_of_parent? (ring.parents x (by simp)))
  cases l with
  | nil =>
      have right : a.right = r.headD x := by
        simpa [right?, links?, foundA] using ring.right?_first
      have next : (if a.right = x then none else some a.right) = r.head? := by
        rw [right]
        cases r with
        | nil => simp
        | cons c r =>
            have differ : c ≠ x := fun same =>
              (List.nodup_cons.mp ring.distinct).1 (by simp [same])
            simp [differ]
      obtain ⟨s', edited, size, links, contents⟩ :=
        exists_revise inside fun c : Content κ α =>
          { c with child := if a.right = x then none else some a.right }
      refine ⟨s', ?_, size, links, fun j => ?_⟩
      · simp [passOver, foundA, foundB, child, edited]
      · rw [contents]
        split
        · rename_i same
          simp [← same, content, next]
        · rfl
  | cons c l =>
      have differ : c ≠ x := by
        intro same
        exact (List.nodup_cons.mp ring.distinct).1 (by simp [same])
      refine ⟨s, ?_, rfl, fun _ => rfl, fun j => ?_⟩
      · simp [passOver, foundA, foundB, child, differ]
      · split
        · rename_i same
          rw [← same, content]
          simp [Vertex.content, children]
        · rfl

theorem exists_dropChild {c : Content κ α} {n : Nat} (content : s.content? y = some c)
    (degree : c.degree = n + 1)
    : ∃ s',
        s.dropChild y = some s'
        ∧ s'.size = s.size
        ∧ (∀ j, s'.links? j = s.links? j)
        ∧ ∀ j, s'.content? j = if y = j then some { c with degree := n } else s.content? j := by
  obtain ⟨b, found, same⟩ := Option.map_eq_some_iff.mp content
  have count : b.degree = n + 1 := by rw [same, degree]
  have inside : y < s.size := slot?_isSome.mp (by simp [found])
  obtain ⟨s', edited, size, links, contents⟩ :=
    exists_revise inside fun c : Content κ α => { c with degree := n }
  refine ⟨s', ?_, size, links, fun j => ?_⟩
  · simp only [dropChild, found, count, Option.bind_eq_bind, Option.bind_some, edited]
  · rw [contents]
    split
    · rename_i here
      rw [← here, content, Option.map_some]
    · rfl

/-- Cutting a child off makes it the last root. -/
theorem Holds.cut {m : Nat} {ms : List Nat} (holds : s.Holds (m :: ms) (u :: v :: vs))
    (children : u.children = l ++ v.handle :: r)
    : ∃ s',
        s.cut (some m) v.handle u.handle = some s'
        ∧ s'.size = s.size
        ∧ s'.Holds (m :: ms ++ [v.handle])
            ({ u with children := l ++ r } :: { v with marked := false } :: vs) := by
  have ringU := holds.rings u (by simp)
  rw [children] at ringU
  have differ : u.handle ≠ v.handle := holds.handle_ne [u] (by simp) (by simp)
  have isChild : v.handle ∈ u.children := by simp [children]
  have alone : v.handle ∉ l ++ r :=
    (List.nodup_cons.mp (List.perm_middle.nodup_iff.mp ringU.distinct)).1
  have notRoot : v.handle ∉ m :: ms := ringU.apart holds.roots (by simp) _ (by simp)
  -- Step by step: `s₁` passes `v` over, `s₂` takes it out of its ring, `s₃` counts it off, `s₄` and
  -- `s₅` leave it without parent and mark, and `s₆` puts it among the roots.
  obtain ⟨s₁, passed, size₁, links₁, contents₁⟩ :=
    exists_passOver (holds.contents u (by simp)) ringU children
  obtain ⟨s₂, unlinked, relinks, rest₂, single₂⟩ := (ringU.congr fun i _ => links₁ i).unlink
  have content₂ : s₂.content? u.handle = some { u.content with child := (l ++ r).head? } := by
    rw [relinks.content, contents₁, if_pos rfl]
  have degree : u.children.length = (l ++ r).length + 1 := by
    rw [children, List.length_append, List.length_append, List.length_cons, Nat.add_assoc]
  obtain ⟨s₃, dropped, size₃, links₃, contents₃⟩ := exists_dropChild content₂ degree
  obtain ⟨s₄, edited₄, size₄, contents₄, links₄, single₄⟩ :=
    (single₂.congr fun i _ => links₃ i).exists_reparent none
  obtain ⟨s₅, edited₅, size₅, links₅, contents₅⟩ :=
    exists_revise (lt_of_parent? (single₄.parents v.handle (by simp))) fun c : Content κ α =>
      { c with marked := false }
  have elsewhere₅ : ∀ j, v.handle ≠ j → s₅.links? j = s₂.links? j := fun j hj => by
    rw [links₅, links₄ j hj, links₃]
  have roots₅ : s₅.Ring none (m :: ms) := by
    refine holds.roots.congr fun i hi => ?_
    have below : i ∉ u.children :=
      holds.roots.apart (holds.rings u (by simp)) (by simp) i hi
    rw [elsewhere₅ i fun same => below (same ▸ isChild), relinks.links i (children ▸ below), links₁]
  obtain ⟨s₆, spliced, relinks₆, roots₆⟩ :=
    roots₅.splice ((single₄.congr fun i _ => links₅ i).parents v.handle (by simp)) notRoot
  have elsewhere₆ : ∀ j, j ∉ m :: ms → v.handle ≠ j → s₆.links? j = s₂.links? j := by
    intro j hj other
    rw [relinks₆.links j, elsewhere₅ j other]
    rw [List.mem_cons, not_or]
    exact ⟨Ne.symm other, hj⟩
  refine ⟨s₆, ?_, ?_, holds.reviseTwo ?_ ?_ roots₆ rfl rfl ?_ ?_ ?_ rfl⟩
  · simp [Slots.cut, passed, unlinked, dropped, edited₄, edited₅, spliced]
  · rw [relinks₆.size, size₅, size₄, size₃, relinks.size, size₁]
  · intro j hj below
    rw [elsewhere₆ j hj fun same => below (same ▸ isChild), relinks.links j (children ▸ below),
      links₁]
  · intro j otherU otherV
    rw [relinks₆.content, contents₅, if_neg otherV, contents₄, contents₃, if_neg otherU,
      relinks.content, contents₁, if_neg otherU]
  · rw [relinks₆.content, contents₅, if_neg (Ne.symm differ), contents₄, contents₃, if_pos rfl]
    rfl
  · refine rest₂.congr fun i hi => elsewhere₆ i ?_ fun same => alone (same ▸ hi)
    have member : i ∈ l ++ v.handle :: r :=
      List.perm_middle.mem_iff.mpr (List.mem_cons_of_mem _ hi)
    exact ringU.apart holds.roots (by simp) i member
  · rw [relinks₆.content, contents₅, if_pos rfl, contents₄, contents₃, if_neg differ,
      relinks.content, contents₁, if_neg differ, holds.contents v (by simp)]
    rfl

end Slots

end Wayfinding
