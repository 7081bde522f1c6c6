import Wayfinding.Proofs.Heap.Refinement

/-! The handle of an element that came out. Nothing but an insertion that gives out a handle makes
it name an element, so it is stale until then; an insertion that gives it out again makes it name
the new element.
-/

namespace Wayfinding

-----------------------------------------------------------------------------------------
-- Handles that name nothing
-----------------------------------------------------------------------------------------

namespace PriorityMap

variable {κ : Type u} {α : Type v} [LinearOrder κ] {capacity : Nat} {m after : PriorityMap κ α}
  {handle : Nat}

/-- Only a request that gives out a handle makes it name an element, by cases over the answers. -/
theorem Answers.eq_none {request : HeapRequest κ α} {reply : HeapReply κ α}
    (answers : m.Answers capacity request reply after) (absent : m handle = none)
    (other : reply ≠ .handle handle)
    : after handle = none := by
  have unnamed {named : Nat} {old : κ × α} (live : m named = some old) : handle ≠ named := by
    rintro rfl
    rw [absent] at live
    cases live
  cases answers with
  | insert _ _ fresh =>
      rw [Function.update_of_ne fun same => other (congrArg HeapReply.handle same.symm)]
      exact absent
  | pop least =>
      rw [Function.update_of_ne (unnamed least.1)]
      exact absent
  | decreaseKey live =>
      rw [Function.update_of_ne (unnamed live)]
      exact absent
  | @modify named f =>
      by_cases same : handle = named
      · subst same
        rw [Function.update_self, absent]
        rfl
      · rw [Function.update_of_ne same]
        exact absent
  | insertFull | popEmpty | peek | peekEmpty | decreaseKeyIncreased | decreaseKeyStale | key | get
  | size => exact absent

/-- A handle that no request gives out still names nothing, by induction over the requests. -/
theorem AnswersAll.eq_none {requests : List (HeapRequest κ α)} {replies : List (HeapReply κ α)}
    (answers : AnswersAll capacity m requests replies after) (absent : m handle = none)
    (other : .handle handle ∉ replies)
    : after handle = none := by
  induction answers with
  | nil => exact absent
  | cons first _ ih =>
      rw [List.mem_cons, not_or] at other
      exact ih (first.eq_none absent (Ne.symm other.1)) other.2

end PriorityMap

namespace Arena

variable {κ α : Type}

/-- The handle names no element: it finds neither key nor value, there is nothing to modify, and
lowering its key is refused. None of this changes the heap.
-/
structure Stale [LinearOrder κ] (a : Arena κ α) (handle : Nat) : Prop where
  key : a.perform (.key handle) = some (.key none, a)
  get : a.perform (.get handle) = some (.value none, a)
  modify : ∀ f, a.perform (.modify handle f) = some (.value none, a)
  decreaseKey : ∀ key,
    a.perform (.decreaseKey handle key) = some (.refused (.staleHandle handle), a)

/-- The handle names an element with this key and value. -/
structure Finds [LinearOrder κ] (a : Arena κ α) (handle : Nat) (key : κ) (value : α) : Prop where
  key : a.perform (.key handle) = some (.key (some key), a)
  get : a.perform (.get handle) = some (.value (some value), a)

variable {a : Arena κ α} {handle : Nat}

/-- Where a slot holds nothing, there is nothing to modify. -/
theorem modify_of_entry?_eq_none (absent : a.entry? handle = none) (f : α → α)
    : a.modify handle f = a := by
  rw [modify, Slots.edit]
  by_cases inside : handle < a.slots.size
  · obtain ⟨t, found⟩ := Slots.exists_slot? inside
    have nothing : t.value = none := by
      cases value : t.value with
      | none => rfl
      | some v => simp [found, value, Arena.entry?] at absent
    have same : a.slots.cells.modify handle (fun t => { t with value := t.value.map f })
        = a.slots.cells := by
      apply Array.ext_getElem?
      intro i
      rw [Array.getElem?_modify]
      split
      · rename_i here
        subst here
        rw [show a.slots.cells[handle]? = some t from found, Option.map_some, nothing,
          Option.map_none, ← nothing]
      · rfl
    rw [if_pos inside, same]
  · rw [if_neg inside]

variable [LinearOrder κ]

theorem stale_of_entry?_eq_none (absent : a.entry? handle = none) : a.Stale handle := by
  constructor
  · rw [perform, key?, absent]
    rfl
  · rw [perform, get?, absent]
    rfl
  · intro f
    rw [perform, get?, absent, modify_of_entry?_eq_none absent]
    rfl
  · intro key
    rw [perform, Arena.decreaseKey, absent]
    rfl

theorem finds_of_entry? {e : Entry κ α} (found : a.entry? handle = some e)
    : a.Finds handle e.key e.value := by
  constructor
  · rw [perform, key?, found]
    rfl
  · rw [perform, get?, found]
    rfl

-----------------------------------------------------------------------------------------
-- Histories
-----------------------------------------------------------------------------------------

variable {h : FibonacciHeap κ α}

/-- An insertion makes the handle that it gives out name the new element. -/
theorem Models.finds_insert (models : a.Models h) (valid : h.Valid) {key : κ} {value : α}
    {next : Arena κ α} (inserted : a.insert key value = some (.ok handle, next))
    : next.Finds handle key value := by
  obtain ⟨a', stepped, modelled⟩ := models.insert key value
  rw [inserted] at stepped
  have room : h.size < h.capacity := by
    by_contra full
    rw [FibonacciHeap.insert_full (not_lt.mp full)] at stepped
    cases stepped
  obtain ⟨given, heap, accepted, _, validHeap, _, entries⟩ := valid.insert room key value
  rw [accepted] at stepped modelled
  cases stepped
  have member := entries.mem_iff.mpr List.mem_cons_self
  exact finds_of_entry?
    ((modelled.entry? validHeap handle).trans (validHeap.entry?_eq_some.mpr ⟨member, rfl⟩))

/-- The element that comes out is named by its handle before and by none afterwards. -/
theorem Models.of_pop (models : a.Models h) (valid : h.Valid) {e : Entry κ α} {after : Arena κ α}
    (popped : a.pop = some (some e, after))
    : h.contents e.handle ≠ none
      ∧ ∃ heap, after.Models heap ∧ heap.Valid ∧ heap.contents e.handle = none := by
  cases taken : h.pop? with
  | none =>
      rw [models.pop_none taken] at popped
      cases popped
  | some result =>
      obtain ⟨e', heap⟩ := result
      obtain ⟨a', stepped, modelled⟩ := models.pop_some valid taken
      rw [popped] at stepped
      cases stepped
      obtain ⟨validHeap, _, removed⟩ := valid.pop? taken
      refine ⟨?_, heap, modelled, validHeap, ?_⟩
      · rw [valid.contents_eq_some.mpr (removed.mem_iff.mpr List.mem_cons_self)]
        exact Option.some_ne_none _
      · rw [← FibonacciHeap.update_pop valid validHeap removed, Function.update_self]

/-- The handle of an element that came out was given out by an insertion. Whatever is asked later
on, it is stale as long as no insertion gives it out again; one that does so makes it name the new
element.
-/
theorem performAll_stale {capacity : Nat} {start after : Arena κ α} {e : Entry κ α}
    {requests : List (HeapRequest κ α)} {replies : List (HeapReply κ α)}
    (created : Arena.empty κ α capacity = .ok start)
    (done : start.performAll requests = some (replies, a))
    (popped : a.pop = some (some e, after)) (later : List (HeapRequest κ α))
    : .handle e.handle ∈ replies
      ∧ ∃ laterReplies last,
          after.performAll later = some (laterReplies, last)
          ∧ (.handle e.handle ∉ laterReplies → last.Stale e.handle)
          ∧ ∀ key value next,
              last.insert key value = some (.ok e.handle, next)
              → next.Finds e.handle key value := by
  obtain ⟨_, _, h, same, reached⟩ := exists_reached created requests
  rw [done] at same
  cases same
  obtain ⟨live, heap, modelled, validHeap, gone⟩ := reached.models.of_pop reached.valid popped
  obtain ⟨last, laterDone, modelsLast⟩ := modelled.performAll validHeap later
  obtain ⟨laterAnswers, validLast, _⟩ := validHeap.performAll later
  refine ⟨?_, _, last, laterDone, ?_, fun key value next => modelsLast.finds_insert validLast⟩
  · by_contra other
    exact live (reached.answers.eq_none rfl other)
  · intro other
    have absent := FibonacciHeap.contents_eq_none.mp (laterAnswers.eq_none gone other)
    exact stale_of_entry?_eq_none
      ((modelsLast.entry? validLast _).trans (FibonacciHeap.entry?_eq_none.mpr absent))

/-- The handle of the element that came out first is stale although the slot of the second one is
used again.
-/
theorem performAll_stale_two
    : ∃ start a after last,
        Arena.empty Int String 2 = .ok start
        ∧ start.performAll [.insert 5 "a", .insert 7 "b"] = some ([.handle 0, .handle 1], a)
        ∧ a.pop = some (some ⟨0, 5, "a"⟩, after)
        ∧ after.performAll [.pop, .insert 9 "d"]
          = some ([.element (some (7, "b")), .handle 1], last)
        ∧ last.Stale 0 := by
  obtain ⟨start, created, computed⟩ : ∃ start : Arena Int String,
      Arena.empty Int String 2 = .ok start
      ∧ ((start.performAll [.insert 5 "a", .insert 7 "b"]).bind fun filled =>
          filled.2.pop.bind fun popped =>
            (popped.2.performAll [.pop, .insert 9 "d"]).map fun refilled =>
              (filled.1, popped.1, refilled.1))
        = some ([.handle 0, .handle 1], some ⟨0, 5, "a"⟩,
            [.element (some (7, "b")), .handle 1]) :=
    ⟨_, rfl, by decide +kernel⟩
  obtain ⟨⟨replies, a⟩, done, computed⟩ := Option.bind_eq_some_iff.mp computed
  obtain ⟨⟨e, after⟩, popped, computed⟩ := Option.bind_eq_some_iff.mp computed
  obtain ⟨⟨laterReplies, last⟩, laterDone, computed⟩ := Option.map_eq_some_iff.mp computed
  cases computed
  obtain ⟨_, _, _, laterDone', stale, _⟩ :=
    performAll_stale created done popped [.pop, .insert 9 "d"]
  rw [laterDone] at laterDone'
  cases laterDone'
  exact ⟨start, a, after, last, created, done, popped, laterDone, stale (by decide)⟩

/-- The handle of an element that came out names the next one that is added, and then it is not
stale.
-/
theorem not_stale_reissued
    : ∃ start a after last lowered,
        Arena.empty Int String 1 = .ok start
        ∧ start.performAll [.insert 5 "a"] = some ([.handle 0], a)
        ∧ a.pop = some (some ⟨0, 5, "a"⟩, after)
        ∧ after.performAll [.insert 7 "b"] = some ([.handle 0], last)
        ∧ last.perform (.get 0) = some (.value (some "b"), last)
        ∧ last.perform (.decreaseKey 0 3) = some (.lowered, lowered)
        ∧ ¬ last.Stale 0 := by
  refine ⟨_, _, _, _, _, rfl, rfl, rfl, rfl, rfl, rfl, fun stale => ?_⟩
  have found := stale.get
  cases found

end Arena

end Wayfinding
