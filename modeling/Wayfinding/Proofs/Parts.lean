import Mathlib.Data.Finset.Card
import Wayfinding.Proofs.Queries.RawPaths

/-! The connected parts of a terrain are marked exactly. Each is filled from its first cell while
the cells of earlier parts keep their labels; a fill ends since a cell becomes pending only when it
is labelled, and what it labels is what steps along the axes lead to.
-/

namespace Wayfinding

theorem Point.mem_neighbors_comm {p q : Point} : q ∈ p.neighbors ↔ p ∈ q.neighbors := by
  simp only [neighbors, List.mem_cons, List.not_mem_nil, or_false, Point.ext_iff]
  omega

theorem Point.neighbors_nodup (p : Point) : p.neighbors.Nodup := by
  simp only [neighbors, List.nodup_cons, List.mem_cons, List.not_mem_nil, or_false,
    not_or, Point.mk.injEq, not_and, List.nodup_nil, and_true, not_false_iff]
  omega

namespace Terrain

/-- Steps along the axes over walkable cells join one cell to another. -/
inductive Joined (t : Terrain) (start : Point) : Point → Prop
  | here (free : t.walkable start = true) : t.Joined start start
  | step {p q : Point} (before : t.Joined start p) (beside : q ∈ p.neighbors)
    (free : t.walkable q = true)
    : t.Joined start q

/-- The first cell, row by row, that is joined to `p`. -/
def First (t : Terrain) (p f : Point) : Prop :=
  t.Joined p f ∧ ∀ r, t.Joined p r → t.extent.index f ≤ t.extent.index r

/-- The labels tell apart the connected parts: blocked cells have none, walkable cells have the same
if and only if they are joined, and the labels are the numbers from one on in the order of the first
cells.
-/
structure Parted (t : Terrain) (c : Components t.extent) : Prop where
  blocked : ∀ p, t.extent.contains p = true → (c.label p = 0 ↔ t.walkable p = false)
  joined : ∀ p q, t.walkable p = true → t.walkable q = true
    → (c.label p = c.label q ↔ t.Joined p q)
  used : ∀ k, (∃ p, t.walkable p = true ∧ c.label p = k) ↔ 1 ≤ k ∧ k ≤ c.count
  first : ∀ p, t.walkable p = true → ∃ f, t.First p f
  ordered : ∀ p q f g, t.First p f → t.First q g
    → (c.label p < c.label q ↔ t.extent.index f < t.extent.index g)

variable {t : Terrain} {start p q r : Point}

theorem Joined.walkable (joined : t.Joined start p) : t.walkable p = true := by
  cases joined with
  | here free => exact free
  | step _ _ free => exact free

/-- Joined cells join up, by induction over the later steps. -/
theorem Joined.trans (first : t.Joined p q) (second : t.Joined q r) : t.Joined p r := by
  induction second with
  | here => exact first
  | step _ beside free ih => exact ih.step beside free

/-- The steps can be taken back, by induction over them. -/
theorem Joined.symm (joined : t.Joined p q) : t.Joined q p := by
  induction joined with
  | here free => exact .here free
  | step before beside free ih =>
      have back := (Joined.here free).step (Point.mem_neighbors_comm.mp beside) before.walkable
      exact back.trans ih

theorem First.walkable {f : Point} (first : t.First p f) : t.walkable p = true :=
  first.1.symm.walkable

-----------------------------------------------------------------------------------------
-- Labelled cells
-----------------------------------------------------------------------------------------

private theorem get_paint (cells : List Point) (label : Nat) (labels : Layer t.extent Nat)
    : (cells.foldl (fun l q => l.set q label) labels).get p 0
      = if p ∈ cells ∧ t.extent.contains p = true then label else labels.get p 0 := by
  induction cells generalizing labels with
  | nil => simp
  | cons q cells ih =>
      rw [List.foldl_cons, ih, Layer.get_set]
      grind

/-- The walkable cells without a label. -/
def bare (t : Terrain) (labels : Layer t.extent Nat) : Finset Point :=
  t.extent.points.toFinset.filter fun p => t.walkable p = true ∧ labels.get p 0 = 0

theorem mem_bare {labels : Layer t.extent Nat}
    : p ∈ t.bare labels ↔ t.walkable p = true ∧ labels.get p 0 = 0 := by
  rw [bare, Finset.mem_filter, List.mem_toFinset, Extent.mem_points]
  exact and_iff_right_of_imp fun free => contains_of_walkable free.1

theorem card_bare_le (labels : Layer t.extent Nat) : (t.bare labels).card ≤ t.extent.area := by
  refine (Finset.card_filter_le _ _).trans ((List.toFinset_card_le _).trans ?_)
  simp [Extent.points]

theorem mem_unlabelled {labels : Layer t.extent Nat}
    : q ∈ t.unlabelled labels p ↔ q ∈ p.neighbors ∧ q ∈ t.bare labels := by
  simp [unlabelled, mem_bare]

/-- Each cell that gets a label is one fewer without. -/
private theorem card_bare_paint (labels : Layer t.extent Nat) (cells : List Point) {label : Nat}
    (distinct : cells.Nodup) (without : ∀ q ∈ cells, q ∈ t.bare labels) (positive : 0 < label)
    : (t.bare (cells.foldl (fun l q => l.set q label) labels)).card + cells.length
      = (t.bare labels).card := by
  have rest : t.bare (cells.foldl (fun l q => l.set q label) labels)
      = t.bare labels \ cells.toFinset := by
    ext p
    rw [Finset.mem_sdiff, List.mem_toFinset, mem_bare, mem_bare, get_paint]
    have inside := @contains_of_walkable t p
    grind
  have subset : cells.toFinset ⊆ t.bare labels :=
    fun q hq => without q (List.mem_toFinset.mp hq)
  have smaller := Finset.card_le_card subset
  rw [rest, Finset.card_sdiff_of_subset subset]
  rw [List.toFinset_card_of_nodup distinct] at smaller ⊢
  exact Nat.sub_add_cancel smaller

-----------------------------------------------------------------------------------------
-- One fill
-----------------------------------------------------------------------------------------

/-- While a part is filled from `start` only cells joined to it got the label, and only neighbours
of pending cells can still be without.
-/
structure Spreading (t : Terrain) (base : Layer t.extent Nat) (label : Nat) (start : Point)
    (pending : List Point) (labels : Layer t.extent Nat) : Prop where
  started : labels.get start 0 = label
  changed : ∀ p, labels.get p 0 = base.get p 0
    ∨ base.get p 0 = 0 ∧ labels.get p 0 = label ∧ t.Joined start p
  reached : ∀ p ∈ pending, t.Joined start p
  closed : ∀ p q, base.get p 0 = 0 → labels.get p 0 = label → p ∉ pending → q ∈ p.neighbors
    → t.walkable q = true → labels.get q 0 ≠ 0

variable {base labels : Layer t.extent Nat} {label : Nat} {pending : List Point}

/-- Taking up a pending cell labels its neighbours, which become pending. -/
theorem Spreading.round (spreading : t.Spreading base label start (p :: pending) labels)
    (positive : 0 < label)
    : t.Spreading base label start (pending ++ t.unlabelled labels p)
        ((t.unlabelled labels p).foldl (fun l q => l.set q label) labels) := by
  have fresh : ∀ q ∈ t.unlabelled labels p, t.Joined start q ∧ labels.get q 0 = 0 := by
    intro q hq
    obtain ⟨beside, free, without⟩ := by simpa only [mem_unlabelled, mem_bare] using hq
    exact ⟨(spreading.reached p (by simp)).step beside free, without⟩
  constructor
  · rw [get_paint]
    split
    · rfl
    · exact spreading.started
  · intro q
    rw [get_paint]
    split
    · rename_i painted
      obtain ⟨joined, without⟩ := fresh q painted.1
      rcases spreading.changed q with same | ⟨_, labelled, _⟩
      · exact Or.inr ⟨same ▸ without, rfl, joined⟩
      · omega
    · exact spreading.changed q
  · intro q hq
    rcases List.mem_append.mp hq with old | new
    · exact spreading.reached q (List.mem_cons_of_mem p old)
    · exact (fresh q new).1
  · intro a b without labelled handled beside free
    have inside := contains_of_walkable free
    rw [List.mem_append, not_or] at handled
    rw [get_paint, if_neg fun painted => handled.2 painted.1] at labelled
    rw [get_paint]
    split
    · omega
    · rename_i unpainted
      by_cases taken : a = p
      · subst taken
        intro bare
        exact unpainted ⟨mem_unlabelled.mpr ⟨beside, mem_bare.mpr ⟨free, bare⟩⟩, inside⟩
      · exact spreading.closed a b without labelled (by simp [taken, handled.1]) beside free

/-- Enough rounds leave nothing pending, by induction over them. -/
theorem Spreading.spread {rounds : Nat}
    (spreading : t.Spreading base label start pending labels) (positive : 0 < label)
    (enough : (t.bare labels).card + pending.length ≤ rounds)
    : t.Spreading base label start [] (t.spread label rounds pending labels) := by
  induction rounds generalizing pending labels with
  | zero =>
      have nothing : pending = [] := List.length_eq_zero_iff.mp (by omega)
      subst nothing
      exact spreading
  | succ rounds ih =>
      cases pending with
      | nil => exact spreading
      | cons p pending =>
          -- Cells that become pending are labelled in the same round, so the sum falls by one.
          refine ih (spreading.round positive) ?_
          have fewer := card_bare_paint labels (t.unlabelled labels p)
            (p.neighbors_nodup.filter _) (fun q hq => (mem_unlabelled.mp hq).2) positive
          rw [List.length_append]
          rw [List.length_cons] at enough
          omega

/-- A fill begins at its start, which has the label and is pending. -/
theorem spreading_set (free : t.walkable start = true) (without : base.get start 0 = 0)
    (positive : 0 < label)
    : t.Spreading base label start [start] (base.set start label) := by
  refine ⟨?_, fun q => ?_, ?_, ?_⟩
  · rw [Layer.get_set, if_pos ⟨rfl, contains_of_walkable free⟩]
  · rw [Layer.get_set]
    split
    · rename_i same
      obtain ⟨rfl, _⟩ := same
      exact Or.inr ⟨without, rfl, .here free⟩
    · exact Or.inl rfl
  · intro q hq
    rw [List.mem_singleton.mp hq]
    exact .here free
  · intro q s unset labelled other
    rw [Layer.get_set, if_neg fun same => other (by simp [same.1]), unset] at labelled
    omega

/-- A fill labels the cells joined to its start and no others, if the cells with a label were not
joined to any without.
-/
theorem get_spread (free : t.walkable start = true) (without : base.get start 0 = 0)
    (apart : ∀ p q, base.get p 0 ≠ 0 → t.Joined p q → base.get q 0 ≠ 0) (positive : 0 < label)
    : (t.Joined start p
        → (t.spread label t.extent.area [start] (base.set start label)).get p 0 = label)
      ∧ (¬ t.Joined start p
        → (t.spread label t.extent.area [start] (base.set start label)).get p 0
          = base.get p 0) := by
  have begun := spreading_set free without positive
  have enough : (t.bare (base.set start label)).card + [start].length ≤ t.extent.area := by
    have fewer := card_bare_paint base [start]
      (List.nodup_singleton _) (by simp [mem_bare, free, without]) positive
    exact fewer.trans_le (card_bare_le base)
  have ended := begun.spread positive enough
  generalize t.spread label t.extent.area [start] (base.set start label) = labels at ended
  refine ⟨fun joined => ?_, fun other => ?_⟩
  · have unset : ∀ q, t.Joined start q → base.get q 0 = 0 := by
      intro q reached
      by_contra set
      exact apart q start set reached.symm without
    induction joined with
    | here => exact ended.started
    | @step a b before beside free ih =>
        have labelled := ended.closed a b (unset a before) ih (by simp) beside free
        rcases ended.changed b with same | ⟨_, new, _⟩
        · exact absurd (same.trans (unset b (before.step beside free))) labelled
        · exact new
  · rcases ended.changed p with same | ⟨_, _, joined⟩
    · exact same
    · exact absurd joined other

-----------------------------------------------------------------------------------------
-- All parts
-----------------------------------------------------------------------------------------

/-- Once the cells with a number below `n` have been met, the labels tell apart the parts that begin
at one of them, and no other cell has a label.
-/
structure Numbered (t : Terrain) (n : Nat) (c : Components t.extent) : Prop where
  free : ∀ p, c.label p ≠ 0 → t.walkable p = true
  met : ∀ p, t.walkable p = true → t.extent.index p < n → c.label p ≠ 0
  joined : ∀ p q, c.label p ≠ 0 → (c.label p = c.label q ↔ t.Joined p q)
  le_count : ∀ p, c.label p ≤ c.count
  used : ∀ k, 1 ≤ k → k ≤ c.count → ∃ p, c.label p = k
  first : ∀ p, c.label p ≠ 0 → ∃ f, t.First p f ∧ t.extent.index f < n
  ordered : ∀ p q f g, c.label p ≠ 0 → c.label p < c.label q → t.First p f → t.First q g
    → t.extent.index f < t.extent.index g
  count_le : c.count ≤ n

/-- Two first cells of the same part have the same number. -/
theorem First.index_eq {f g : Point} (hf : t.First p f) (hg : t.First q g) (joined : t.Joined p q)
    : t.extent.index f = t.extent.index g :=
  Nat.le_antisymm (hf.2 g (joined.trans hg.1)) (hg.2 f (joined.symm.trans hf.1))

variable {c : Components t.extent} {n : Nat}

theorem numbered_zero : t.Numbered 0 ⟨0, .fill t.extent 0⟩ := by
  have unset : ∀ p, (Layer.fill t.extent 0).get p 0 = 0 := by
    intro p
    rw [Layer.get_fill]
    split <;> rfl
  constructor <;> simp [Components.label, unset]
  omega

/-- The labels `after` are those of `c` and the next one for the cells joined to `start`, none of
which had a label.
-/
structure Adds (t : Terrain) (start : Point) (c after : Components t.extent) : Prop where
  count : after.count = c.count + 1
  unset : ∀ p, t.Joined start p → c.label p = 0
  painted : ∀ p, t.Joined start p → after.label p = c.count + 1
  kept : ∀ p, ¬ t.Joined start p → after.label p = c.label p

/-- Meeting a walkable cell without a label adds its part. -/
theorem Numbered.adds (numbered : t.Numbered n c) (free : t.walkable start = true)
    (without : c.label start = 0)
    : t.Adds start c (t.addComponent c start) := by
  have apart : ∀ p q, c.labels.get p 0 ≠ 0 → t.Joined p q → c.labels.get q 0 ≠ 0 := by
    intro p q labelled joined
    have same := (numbered.joined p q labelled).mpr joined
    exact fun unset => labelled (same.trans unset)
  have bare : c.labels.get start 0 = 0 := without
  have added : t.addComponent c start
      = ⟨c.count + 1, t.spread (c.count + 1) t.extent.area [start]
          (c.labels.set start (c.count + 1))⟩ := by
    simp [addComponent, free, bare]
  rw [added]
  refine ⟨rfl, fun p joined => ?_, fun p => (get_spread free without apart (Nat.succ_pos _)).1,
    fun p => (get_spread free without apart (Nat.succ_pos _)).2⟩
  by_contra set
  exact apart p start set joined.symm bare

section

variable {after : Components t.extent}

theorem Adds.label_ne_zero (adds : t.Adds start c after) (other : ¬ t.Joined start p)
    (set : after.label p ≠ 0)
    : c.label p ≠ 0 :=
  adds.kept p other ▸ set

/-- The new label tells the new part from the others, and the others keep theirs. -/
theorem Adds.label_eq_iff (adds : t.Adds start c after) (numbered : t.Numbered n c)
    (set : after.label p ≠ 0)
    : after.label p = after.label q ↔ t.Joined p q := by
  by_cases joinedP : t.Joined start p
  · by_cases joinedQ : t.Joined start q
    · simp [adds.painted, joinedP, joinedQ, joinedP.symm.trans joinedQ]
    · have other : ¬ t.Joined p q := fun h => joinedQ (joinedP.trans h)
      have := numbered.le_count q
      simp only [adds.painted p joinedP, adds.kept q joinedQ, other, iff_false]
      omega
  · by_cases joinedQ : t.Joined start q
    · have other : ¬ t.Joined p q := fun h => joinedP (joinedQ.trans h.symm)
      have := numbered.le_count p
      simp only [adds.kept p joinedP, adds.painted q joinedQ, other, iff_false]
      omega
    · rw [adds.kept p joinedP, adds.kept q joinedQ]
      exact numbered.joined p q (adds.label_ne_zero joinedP set)

theorem Adds.label_le_count (adds : t.Adds start c after) (numbered : t.Numbered n c) (p : Point)
    : after.label p ≤ after.count := by
  rw [adds.count]
  by_cases joined : t.Joined start p
  · exact (adds.painted p joined).le
  · exact (adds.kept p joined).le.trans (Nat.le_succ_of_le (numbered.le_count p))

theorem Adds.exists_label (adds : t.Adds start c after) (numbered : t.Numbered n c)
    (free : t.walkable start = true) {k : Nat} (positive : 1 ≤ k) (le : k ≤ after.count)
    : ∃ p, after.label p = k := by
  rw [adds.count] at le
  rcases Nat.lt_or_ge c.count k with new | earlier
  · exact ⟨start, by rw [adds.painted start (.here free)]; omega⟩
  · obtain ⟨p, hp⟩ := numbered.used k positive earlier
    have old : ¬ t.Joined start p := fun joined => by
      have := adds.unset p joined
      omega
    exact ⟨p, (adds.kept p old).trans hp⟩

/-- All cells met before have labels, so the new part begins where it is met. -/
theorem Adds.first (adds : t.Adds start c after) (numbered : t.Numbered n c)
    (free : t.walkable start = true) (number : t.extent.index start = n)
    : t.First start start := by
  refine ⟨.here free, fun p joined => ?_⟩
  by_contra earlier
  exact numbered.met p joined.walkable (by omega) (adds.unset p joined)

/-- The parts met before begin before the new one. -/
theorem Numbered.index_first_lt (numbered : t.Numbered n c) {f : Point} (set : c.label p ≠ 0)
    (first : t.First p f)
    : t.extent.index f < n := by
  obtain ⟨g, firstG, less⟩ := numbered.first p set
  have same := first.index_eq firstG (.here first.walkable)
  omega

/-- Of two labelled cells the one in the new part has the greater label. -/
theorem Adds.index_first_lt (adds : t.Adds start c after) (numbered : t.Numbered n c)
    (firstS : t.First start start) (number : t.extent.index start = n) {f g : Point}
    (set : after.label p ≠ 0) (less : after.label p < after.label q) (firstF : t.First p f)
    (firstG : t.First q g)
    : t.extent.index f < t.extent.index g := by
  by_cases joinedP : t.Joined start p
  · have bound := adds.label_le_count numbered q
    rw [adds.painted p joinedP] at less
    rw [adds.count] at bound
    omega
  · have setP := adds.label_ne_zero joinedP set
    have earlier := numbered.index_first_lt setP firstF
    by_cases joinedQ : t.Joined start q
    · have same := firstS.index_eq firstG joinedQ
      omega
    · rw [adds.kept p joinedP, adds.kept q joinedQ] at less
      exact numbered.ordered p q f g setP less firstF firstG

end

/-- A part that begins at the cell with number `n` comes behind all parts met before. -/
private theorem Numbered.begin (numbered : t.Numbered n c) (inside : n < t.extent.area)
    (free : t.walkable (t.extent.point n) = true) (without : c.label (t.extent.point n) = 0)
    : t.Numbered (n + 1) (t.addComponent c (t.extent.point n)) := by
  have adds := numbered.adds free without
  have number : t.extent.index (t.extent.point n) = n := Extent.index_point inside
  generalize t.addComponent c (t.extent.point n) = after at adds
  generalize t.extent.point n = s at free without number adds
  have firstS := adds.first numbered free number
  refine {
    free := fun p set => ?_
    met := fun p freeP less => ?_
    joined := fun p q set => adds.label_eq_iff numbered set
    le_count := adds.label_le_count numbered
    used := fun k positive le => adds.exists_label numbered free positive le
    first := fun p set => ?_
    ordered := fun p q f g set less => adds.index_first_lt numbered firstS number set less
    count_le := adds.count ▸ Nat.succ_le_succ numbered.count_le }
  · by_cases joined : t.Joined s p
    · exact joined.walkable
    · exact numbered.free p (adds.label_ne_zero joined set)
  · by_cases joined : t.Joined s p
    · rw [adds.painted p joined]
      omega
    · rw [adds.kept p joined]
      refine numbered.met p freeP (Nat.lt_of_le_of_ne (Nat.le_of_lt_succ less) fun same => ?_)
      have here : p = s :=
        Extent.index_inj (contains_of_walkable freeP) (contains_of_walkable free)
          (same.trans number.symm)
      rw [here] at joined
      exact joined (.here free)
  · by_cases joined : t.Joined s p
    · exact ⟨s, ⟨joined.symm, fun r hr => firstS.2 r (joined.trans hr)⟩, by omega⟩
    · obtain ⟨f, firstF, less⟩ := numbered.first p (adds.label_ne_zero joined set)
      exact ⟨f, firstF, by omega⟩

/-- Meeting the next cell keeps the numbering. -/
private theorem Numbered.step (numbered : t.Numbered n c) (inside : n < t.extent.area)
    : t.Numbered (n + 1) (t.addComponent c (t.extent.point n)) := by
  by_cases starts : t.walkable (t.extent.point n) = true ∧ c.label (t.extent.point n) = 0
  · exact numbered.begin inside starts.1 starts.2
  · have same : t.addComponent c (t.extent.point n) = c := by
      rw [addComponent, if_neg]
      rwa [Bool.and_eq_true, beq_iff_eq]
    rw [same]
    refine {
      numbered with
      met := fun p free less => ?_
      first := fun p set => ?_
      count_le := Nat.le_succ_of_le numbered.count_le }
    · rcases Nat.lt_succ_iff_lt_or_eq.mp less with earlier | here
      · exact numbered.met p free earlier
      · have cell : t.extent.point n = p :=
          here ▸ Extent.point_index (contains_of_walkable free)
        exact fun unset => starts (cell ▸ ⟨free, unset⟩)
    · obtain ⟨f, firstF, earlier⟩ := numbered.first p set
      exact ⟨f, firstF, Nat.lt_succ_of_lt earlier⟩

/-- The cells are met row by row, by induction over their number. -/
theorem numbered_components (t : Terrain) : t.Numbered t.extent.area t.components := by
  have met : ∀ n, n ≤ t.extent.area
      → t.Numbered n (((List.range n).map t.extent.point).foldl t.addComponent
          ⟨0, .fill t.extent 0⟩) := by
    intro n
    induction n with
    | zero => exact fun _ => numbered_zero
    | succ n ih =>
        intro le
        rw [List.range_succ, List.map_append, List.foldl_append]
        exact (ih (Nat.le_of_succ_le le)).step le
  exact met _ (Nat.le_refl _)

/-- Once every cell has been met the labels tell apart all parts. -/
theorem Numbered.parted (numbered : t.Numbered t.extent.area c) : t.Parted c := by
  have set : ∀ p, t.walkable p = true → c.label p ≠ 0 := fun p free =>
    numbered.met p free (Extent.index_lt (contains_of_walkable free))
  refine ⟨fun p _ => ?_, fun p q free _ => numbered.joined p q (set p free), fun k => ?_,
    fun p free => ?_, fun p q f g firstF firstG => ?_⟩
  · rw [← Bool.not_eq_true]
    exact ⟨fun unset free => set p free unset,
      fun closed => by_contra fun labelled => closed (numbered.free p labelled)⟩
  · constructor
    · intro h
      obtain ⟨p, free, rfl⟩ := h
      exact ⟨Nat.one_le_iff_ne_zero.mpr (set p free), numbered.le_count p⟩
    · intro h
      obtain ⟨p, rfl⟩ := numbered.used k h.1 h.2
      exact ⟨p, numbered.free p (Nat.one_le_iff_ne_zero.mp h.1), rfl⟩
  · obtain ⟨f, firstF, _⟩ := numbered.first p (set p free)
    exact ⟨f, firstF⟩
  · have setP := set p firstF.walkable
    have setQ := set q firstG.walkable
    refine ⟨fun less => numbered.ordered p q f g setP less firstF firstG, fun less => ?_⟩
    by_contra notLess
    rcases Nat.lt_or_eq_of_le (Nat.not_lt.mp notLess) with greater | same
    · have := numbered.ordered q p g f setQ greater firstG firstF
      omega
    · have := firstF.index_eq firstG ((numbered.joined p q setP).mp same.symm)
      omega

end Terrain

end Wayfinding
