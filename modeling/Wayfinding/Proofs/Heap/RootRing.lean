import Wayfinding.Proofs.Heap.Layout

/-! How slots join the ring of the roots and leave it: a new element, the children of a root that
goes, and the root itself.
-/

namespace Wayfinding.Slots

variable {κ α : Type} {s s' : Slots κ α} {i n c z : Nat} {l r roots cs : List Nat}
  {vs : List (Vertex κ α)} {u v w : Vertex κ α}

-----------------------------------------------------------------------------------------
-- Children that become roots
-----------------------------------------------------------------------------------------

/-- A slot that is released becomes the last root. -/
theorem exists_release (ring : s.Ring none (z :: l)) (inside : c < s.size) (fresh : c ∉ z :: l)
    : ∃ s',
        release z s c = some s'
        ∧ s'.size = s.size
        ∧ (∀ j, s'.content? j = s.content? j)
        ∧ (∀ j, j ∉ c :: z :: l → s'.links? j = s.links? j)
        ∧ s'.Ring none (z :: l ++ [c]) := by
  obtain ⟨s₁, edited, size₁, contents₁, links₁⟩ :=
    exists_relink inside fun _ => { parent := none, left := c, right := c }
  have elsewhere : ∀ j, j ≠ c → s₁.links? j = s.links? j := fun j hj => by
    rw [links₁, if_neg (Ne.symm hj)]
  have ring₁ : s₁.Ring none (z :: l) :=
    ring.congr fun i hi => elsewhere i fun same => fresh (same ▸ hi)
  have parent : s₁.parent? c = some none := by
    obtain ⟨t, found⟩ := exists_slot? inside
    rw [parent?, links₁, if_pos rfl, links?, found]
    rfl
  obtain ⟨s₂, spliced, relinks, ring₂⟩ := ring₁.splice parent fresh
  refine ⟨s₂, ?_, by rw [relinks.size, size₁], fun j => ?_, fun j hj => ?_, ring₂⟩
  · simp [release, edited, spliced]
  · rw [relinks.content, contents₁]
  · rw [relinks.links j hj, elsewhere j fun same => hj (by simp [same])]

/-- Slots that are released one after the other become the last roots, by induction over them. -/
theorem exists_releaseAll (ring : s.Ring none (z :: l)) (distinct : cs.Nodup)
    (inside : ∀ c ∈ cs, c < s.size) (fresh : ∀ c ∈ cs, c ∉ z :: l)
    : ∃ s',
        cs.foldlM (release z) s = some s'
        ∧ s'.size = s.size
        ∧ (∀ j, s'.content? j = s.content? j)
        ∧ (∀ j, j ∉ z :: l → j ∉ cs → s'.links? j = s.links? j)
        ∧ s'.Ring none (z :: l ++ cs) := by
  induction cs generalizing s l with
  | nil => exact ⟨s, rfl, rfl, fun _ => rfl, fun _ _ _ => rfl, by simpa using ring⟩
  | cons c cs ih =>
      obtain ⟨freshC, distinctCs⟩ := List.nodup_cons.mp distinct
      obtain ⟨s₁, released, size₁, contents₁, links₁, ring₁⟩ :=
        exists_release ring (inside c (by simp)) (fresh c (by simp))
      have fresh₁ : ∀ b ∈ cs, b ∉ z :: (l ++ [c]) := by
        intro b hb member
        rcases List.mem_append.mp (List.cons_append ▸ member) with old | new
        · exact fresh b (List.mem_cons_of_mem c hb) old
        · exact freshC (List.mem_singleton.mp new ▸ hb)
      obtain ⟨s₂, others, size₂, contents₂, links₂, ring₂⟩ :=
        ih ring₁ distinctCs
          (fun b hb => size₁ ▸ inside b (List.mem_cons_of_mem c hb)) fresh₁
      refine ⟨s₂, ?_, size₂.trans size₁, fun j => ?_, fun j hj below => ?_, by simpa using ring₂⟩
      · simp [released, others]
      · rw [contents₂, contents₁]
      · rw [List.mem_cons, not_or] at below
        rw [links₂ j ?_ below.2, links₁ j ?_]
        · simpa [below.1] using hj
        · simpa [below.1] using hj

/-- The children of the first root become the last roots, and it has none left. -/
theorem Holds.release (holds : s.Holds (u.handle :: roots) (u :: vs))
    : ∃ s₁ s',
        u.children.foldlM (Slots.release u.handle) s = some s₁
        ∧ s₁.edit u.handle (fun t => { t with child := none, degree := 0 }) = some s'
        ∧ s'.size = s.size
        ∧ s'.Holds (u.handle :: (roots ++ u.children)) ({ u with children := [] } :: vs) := by
  have below := holds.rings u (by simp)
  obtain ⟨s₁, released, size₁, contents₁, links₁, ring₁⟩ :=
    exists_releaseAll holds.roots below.distinct
      (fun c hc => lt_of_parent? (below.parents c hc)) (below.apart holds.roots (by simp))
  obtain ⟨s₂, edited, size₂, links₂, contents₂⟩ :=
    exists_revise (s := s₁) (i := u.handle) (by rw [size₁]; exact holds.lt (by simp))
      fun c => { c with child := none, degree := 0 }
  refine ⟨s₁, s₂, released, edited, size₂.trans size₁,
    holds.revise [u] [_] ?_ ?_ ?_ ?_ rfl⟩
  · intro j hj other
    rw [links₂, links₁ j hj (other u (by simp))]
  · intro v hv
    rw [contents₂, if_neg (holds.handle_ne [u] (by simp) hv), contents₁]
  · exact ring₁.congr fun i _ => links₂ i
  · intro v hv
    rw [List.mem_singleton.mp hv]
    refine ⟨?_, ring_nil⟩
    rw [contents₂, if_pos rfl, contents₁, holds.contents u (by simp)]
    rfl

-----------------------------------------------------------------------------------------
-- Roots that go and come
-----------------------------------------------------------------------------------------

theorem Holds.unlink (holds : s.Holds (l ++ i :: r) vs)
    : ∃ s', s.unlink i = some s' ∧ s'.size = s.size ∧ s'.Holds (l ++ r) vs := by
  obtain ⟨s', unlinked, relinks, rest, _⟩ := holds.roots.unlink
  exact ⟨s', unlinked, relinks.size,
    holds.revise [] [] (fun j hj _ => relinks.links j hj) (fun v _ => relinks.content v.handle) rest
      (by simp) rfl⟩

/-- A slot on its own joins the ring of the roots as the last one. -/
theorem Holds.join (holds : s.Holds (z :: l) vs) (single : s.Ring none [n]) (fresh : n ∉ z :: l)
    : ∃ s', s.splice z n = some s' ∧ s'.size = s.size ∧ s'.Holds (z :: l ++ [n]) vs := by
  obtain ⟨s', spliced, relinks, ring⟩ :=
    holds.roots.splice (single.parents n (by simp)) fresh
  refine ⟨s', spliced, relinks.size, ring, fun v hv => ?_, fun v hv => ?_, holds.distinct⟩
  · rw [relinks.content, holds.contents v hv]
  · have below := holds.rings v hv
    refine below.relinks relinks fun i hi => ?_
    rw [List.mem_cons, not_or]
    refine ⟨fun same => ?_, below.apart holds.roots (by simp) i hi⟩
    exact below.apart single (by simp) i hi (by simp [same])

/-- A new slot with an element and without children is a vertex on its own. -/
theorem Holds.add (holds : s.Holds roots vs) (leaf : u.children = [])
    (new : s'.slot? u.handle = some ⟨u.content, ⟨none, u.handle, u.handle⟩⟩)
    (others : ∀ j, j ≠ u.handle → s'.slot? j = s.slot? j) (freshRoot : u.handle ∉ roots)
    (fresh : ∀ v ∈ vs, v.handle ≠ u.handle ∧ u.handle ∉ v.children)
    : s'.Holds roots (u :: vs) ∧ s'.Ring none [u.handle] := by
  have same {p : Option Nat} {l : List Nat} (ring : s.Ring p l) (apart : u.handle ∉ l)
      : s'.Ring p l :=
    ring.congr fun i hi => by rw [links?, others i fun same => apart (same ▸ hi), links?]
  refine ⟨⟨same holds.roots freshRoot, fun v hv => ?_, fun v hv => ?_, ?_⟩, ?_⟩
  · rcases List.mem_cons.mp hv with rfl | old
    · rw [content?, new]
      rfl
    · rw [content?, others v.handle (fresh v old).1]
      exact holds.contents v old
  · rcases List.mem_cons.mp hv with rfl | old
    · rw [leaf]
      exact ring_nil
    · exact same (holds.rings v old) (fresh v old).2
  · refine List.nodup_cons.mpr ⟨fun used => ?_, holds.distinct⟩
    obtain ⟨v, hv, named⟩ := List.mem_map.mp used
    exact (fresh v hv).1 named
  · refine ⟨List.nodup_singleton _, fun i hi => ?_, fun first hf => ?_⟩
    · rw [List.mem_singleton.mp hi, parent?, links?, new]
      rfl
    · cases hf
      refine List.isChain_pair.mpr ⟨?_, ?_⟩
      · rw [right?, links?, new]
        rfl
      · rw [left?, links?, new]
        rfl

end Wayfinding.Slots
