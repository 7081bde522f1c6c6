import Mathlib.Data.Int.Order.Basic
import Mathlib.Logic.Function.Basic
import Wayfinding.Proofs.Heap.Validity

/-! A heap behaves as a map from handles to keys and values, whatever the history of its calls.
The map says what every call may answer and how it may change the map; trees, rings and marks
have no part in it. Of several least elements any may come out.
-/

namespace Wayfinding

/-- A map from handles to keys and values. -/
abbrev PriorityMap (κ : Type u) (α : Type v) :=
  Nat → Option (κ × α)

/-- What a heap can be asked. -/
inductive HeapRequest (κ : Type u) (α : Type v) where
  | insert (key : κ) (value : α)
  | pop
  | peek
  | decreaseKey (handle : Nat) (key : κ)
  | key (handle : Nat)
  | get (handle : Nat)
  | modify (handle : Nat) (f : α → α)
  | size

/-- What a heap can answer. -/
inductive HeapReply (κ : Type u) (α : Type v) where
  | handle (handle : Nat)
  | refused (reason : HeapFault)
  | element (found : Option (κ × α))
  | key (found : Option κ)
  | value (found : Option α)
  | lowered
  | size (count : Nat)
deriving DecidableEq

namespace HeapReply

variable {κ : Type u} {α : Type v}

/-- The reply to an insertion. -/
def ofInsert : Except HeapFault Nat → HeapReply κ α
  | .ok named => .handle named
  | .error reason => .refused reason

/-- The reply to lowering a key. -/
def ofDecreaseKey : Except HeapFault Unit → HeapReply κ α
  | .ok _ => .lowered
  | .error reason => .refused reason

end HeapReply

namespace PriorityMap

variable {κ : Type u} {α : Type v}

/-- The map without elements. -/
def empty : PriorityMap κ α :=
  fun _ => none

/-- The map has this many elements: their handles can be listed, each once. -/
def HasSize (m : PriorityMap κ α) (count : Nat) : Prop :=
  ∃ handles : List Nat,
    handles.Nodup ∧ (∀ handle, handle ∈ handles ↔ m handle ≠ none) ∧ handles.length = count

/-- The handle names an element with this key and value, and no element has a smaller key. -/
def Least [LE κ] (m : PriorityMap κ α) (handle : Nat) (key : κ) (value : α) : Prop :=
  m handle = some (key, value) ∧ ∀ other k v, m other = some (k, v) → key ≤ k

/-- The answers that a map with room for `capacity` elements allows, and the map afterwards. -/
inductive Answers [LinearOrder κ] (capacity : Nat) (m : PriorityMap κ α)
    : HeapRequest κ α → HeapReply κ α → PriorityMap κ α → Prop
  | insert {key value handle count} (size : m.HasSize count) (room : count < capacity)
    (fresh : m handle = none)
    : m.Answers capacity (.insert key value) (.handle handle)
        (Function.update m handle (some (key, value)))
  | insertFull {key value} (full : m.HasSize capacity)
    : m.Answers capacity (.insert key value) (.refused (.capacityExceeded capacity)) m
  | pop {handle key value} (least : m.Least handle key value)
    : m.Answers capacity .pop (.element (some (key, value))) (Function.update m handle none)
  | popEmpty (nothing : m = empty) : m.Answers capacity .pop (.element none) m
  | peek {handle key value} (least : m.Least handle key value)
    : m.Answers capacity .peek (.element (some (key, value))) m
  | peekEmpty (nothing : m = empty) : m.Answers capacity .peek (.element none) m
  | decreaseKey {handle key old value} (live : m handle = some (old, value)) (lower : key ≤ old)
    : m.Answers capacity (.decreaseKey handle key) .lowered
        (Function.update m handle (some (key, value)))
  | decreaseKeyIncreased {handle key old value} (live : m handle = some (old, value))
    (greater : old < key)
    : m.Answers capacity (.decreaseKey handle key) (.refused .keyIncreased) m
  | decreaseKeyStale {handle key} (stale : m handle = none)
    : m.Answers capacity (.decreaseKey handle key) (.refused (.staleHandle handle)) m
  | key {handle} : m.Answers capacity (.key handle) (.key ((m handle).map Prod.fst)) m
  | get {handle} : m.Answers capacity (.get handle) (.value ((m handle).map Prod.snd)) m
  | modify {handle f}
    : m.Answers capacity (.modify handle f) (.value ((m handle).map Prod.snd))
        (Function.update m handle ((m handle).map (Prod.map id f)))
  | size {count} (size : m.HasSize count) : m.Answers capacity .size (.size count) m

/-- The answers that a map allows to one request after the other, and the map at the end. -/
inductive AnswersAll [LinearOrder κ] (capacity : Nat)
    : PriorityMap κ α → List (HeapRequest κ α) → List (HeapReply κ α) → PriorityMap κ α → Prop
  | nil {m} : AnswersAll capacity m [] [] m
  | cons {m after last request requests reply replies}
    (first : m.Answers capacity request reply after)
    (rest : AnswersAll capacity after requests replies last)
    : AnswersAll capacity m (request :: requests) (reply :: replies) last

/-- The listed elements are those of the map, each once and in the order of their keys. -/
structure Lists [LE κ] (m : PriorityMap κ α) (es : List (Entry κ α)) : Prop where
  distinct : (es.map Entry.handle).Nodup
  elements : ∀ handle key value, m handle = some (key, value) ↔ ⟨handle, key, value⟩ ∈ es
  sorted : es.Pairwise fun e f => e.key ≤ f.key

end PriorityMap

namespace FibonacciHeap

variable {κ : Type u} {α : Type v}

/-- The elements of a heap by their handles. -/
def contents (h : FibonacciHeap κ α) : PriorityMap κ α :=
  fun handle => (h.entry? handle).map fun e => (e.key, e.value)

variable [LinearOrder κ]

/-- Answers one request. -/
def perform (h : FibonacciHeap κ α) : HeapRequest κ α → HeapReply κ α × FibonacciHeap κ α
  | .insert key value => (h.insert key value).map .ofInsert id
  | .pop =>
      match h.pop? with
      | some (e, heap) => (.element (some (e.key, e.value)), heap)
      | none => (.element none, h)
  | .peek => (.element (h.peek?.map fun e => (e.key, e.value)), h)
  | .decreaseKey handle key => (h.decreaseKey handle key).map .ofDecreaseKey id
  | .key handle => (.key (h.key? handle), h)
  | .get handle => (.value (h.get? handle), h)
  | .modify handle f => (.value (h.get? handle), h.modify handle f)
  | .size => (.size h.size, h)

/-- Answers one request after the other. -/
def performAll (h : FibonacciHeap κ α)
    : List (HeapRequest κ α) → List (HeapReply κ α) × FibonacciHeap κ α
  | [] => ([], h)
  | request :: requests =>
      let (reply, after) := h.perform request
      let (replies, last) := after.performAll requests
      (reply :: replies, last)

variable {h : FibonacciHeap κ α}

-----------------------------------------------------------------------------------------
-- The map of a valid heap
-----------------------------------------------------------------------------------------

/-- The map of a valid heap has exactly its elements. -/
theorem Valid.contents_eq_some (valid : h.Valid) {handle : Nat} {key : κ} {value : α}
    : h.contents handle = some (key, value) ↔ ⟨handle, key, value⟩ ∈ h.entries := by
  constructor
  · intro found
    obtain ⟨⟨named, k, v⟩, he, same⟩ := Option.map_eq_some_iff.mp found
    obtain ⟨member, rfl⟩ := valid.entry?_eq_some.mp he
    cases same
    exact member
  · intro member
    exact Option.map_eq_some_iff.mpr ⟨_, valid.entry?_eq_some.mpr ⟨member, rfl⟩, rfl⟩

omit [LinearOrder κ] in
theorem contents_eq_none {handle : Nat}
    : h.contents handle = none ↔ handle ∉ h.entries.map Entry.handle := by
  rw [contents, Option.map_eq_none_iff, entry?_eq_none]

/-- The map of a valid heap has as many elements as the heap counts. -/
theorem Valid.hasSize (valid : h.Valid) : h.contents.HasSize h.size := by
  refine ⟨h.entries.map Entry.handle, valid.distinct, ?_, ?_⟩
  · intro handle
    rw [Ne, contents_eq_none, not_not]
  · rw [List.length_map, valid.size_eq]

/-- Two maps are the same if one has the elements of the other. -/
theorem eq_contents (valid : h.Valid) {m : PriorityMap κ α}
    (same : ∀ handle key value,
      m handle = some (key, value) ↔ ⟨handle, key, value⟩ ∈ h.entries)
    : m = h.contents := by
  funext handle
  refine Option.ext fun ⟨key, value⟩ => ?_
  rw [same, valid.contents_eq_some]

omit [LinearOrder κ] in
theorem contents_of_nil (nothing : h.entries = []) : h.contents = PriorityMap.empty := by
  funext handle
  exact contents_eq_none.mpr (by simp [nothing])

/-- An added element is in the map under its handle. -/
theorem update_insert {heap : FibonacciHeap κ α} (valid : h.Valid) (validHeap : heap.Valid)
    {handle : Nat} {key : κ} {value : α} (fresh : handle ∉ h.entries.map Entry.handle)
    (added : heap.entries.Perm (⟨handle, key, value⟩ :: h.entries))
    : Function.update h.contents handle (some (key, value)) = heap.contents := by
  refine eq_contents validHeap fun other k v => ?_
  rw [added.mem_iff, List.mem_cons]
  by_cases same : other = handle
  · subst same
    have absent : ⟨other, k, v⟩ ∉ h.entries := fun member =>
      fresh (List.mem_map.mpr ⟨_, member, rfl⟩)
    simp [absent, eq_comm]
  · rw [Function.update_of_ne same, valid.contents_eq_some]
    simp [same]

/-- An element that came out is no longer in the map. -/
theorem update_pop {heap : FibonacciHeap κ α} (valid : h.Valid) (validHeap : heap.Valid)
    {e : Entry κ α} (removed : h.entries.Perm (e :: heap.entries))
    : Function.update h.contents e.handle none = heap.contents := by
  have unique := (removed.map Entry.handle).nodup_iff.mp valid.distinct
  refine eq_contents validHeap fun other k v => ?_
  by_cases same : other = e.handle
  · subst same
    have absent : ⟨e.handle, k, v⟩ ∉ heap.entries := fun member =>
      (List.nodup_cons.mp unique).1 (List.mem_map.mpr ⟨_, member, rfl⟩)
    simp [absent]
  · rw [Function.update_of_ne same, valid.contents_eq_some, removed.mem_iff, List.mem_cons]
    refine or_iff_right fun eq => same ?_
    rw [← eq]

/-- A lowered key is in the map, with the value that was there. -/
theorem update_decreaseKey {heap : FibonacciHeap κ α} (valid : h.Valid) (validHeap : heap.Valid)
    {e : Entry κ α} (he : e ∈ h.entries) {key : κ}
    (lowered : heap.entries.Perm (h.entries.map (Entry.rekey e.handle key)))
    : Function.update h.contents e.handle (some (key, e.value)) = heap.contents := by
  refine eq_contents validHeap fun other k v => ?_
  rw [lowered.mem_iff, List.mem_map]
  by_cases same : other = e.handle
  · subst same
    rw [Function.update_self]
    constructor
    · intro h
      cases h
      exact ⟨e, he, by simp [Entry.rekey]⟩
    · intro h
      obtain ⟨f, hf, changed⟩ := h
      have named : f = e := valid.entry_eq hf he (by simpa using congrArg Entry.handle changed)
      subst named
      simpa [Entry.rekey] using changed
  · rw [Function.update_of_ne same, valid.contents_eq_some]
    constructor
    · exact fun member => ⟨_, member, Entry.rekey_of_ne same⟩
    · intro h
      obtain ⟨f, hf, changed⟩ := h
      have other : f.handle ≠ e.handle := by
        intro eq
        exact same (by rw [← eq, ← Entry.handle_rekey e.handle key f, changed])
      rwa [← changed, Entry.rekey_of_ne other]

/-- A modified value is in the map, with the key that was there. -/
theorem update_modify (valid : h.Valid) (handle : Nat) (f : α → α)
    : Function.update h.contents handle ((h.contents handle).map (Prod.map id f))
      = (h.modify handle f).contents := by
  refine eq_contents (valid.modify handle f) fun other k v => ?_
  rw [entries_modify, List.mem_map]
  by_cases same : other = handle
  · subst same
    rw [Function.update_self, Option.map_eq_some_iff]
    constructor
    · intro h
      obtain ⟨⟨key, value⟩, found, ⟨⟩⟩ := h
      exact ⟨_, valid.contents_eq_some.mp found, by simp [Entry.revalue]⟩
    · intro h
      obtain ⟨⟨named, key, value⟩, member, changed⟩ := h
      have same : named = other := by simpa using congrArg Entry.handle changed
      subst same
      refine ⟨(key, value), valid.contents_eq_some.mpr member, ?_⟩
      simpa [Entry.revalue] using changed
  · rw [Function.update_of_ne same, valid.contents_eq_some]
    constructor
    · exact fun member => ⟨_, member, by simp [Entry.revalue, same]⟩
    · intro h
      obtain ⟨⟨named, key, value⟩, member, changed⟩ := h
      have other : named ≠ handle := by
        intro eq
        exact same (by simpa [eq] using (congrArg Entry.handle changed).symm)
      simp only [Entry.revalue, other, if_false] at changed
      rwa [← changed]

-----------------------------------------------------------------------------------------
-- One request and all requests
-----------------------------------------------------------------------------------------

/-- The least element of a valid heap is a least one of its map. -/
theorem Valid.least_peek? (valid : h.Valid) {e : Entry κ α} (shown : h.peek? = some e)
    : h.contents.Least e.handle e.key e.value := by
  obtain ⟨member, least⟩ := valid.peek?_least shown
  refine ⟨valid.contents_eq_some.mpr member, ?_⟩
  intro other k v found
  exact least _ (valid.contents_eq_some.mp found)

/-- A valid heap answers every request as its map allows, and stays valid; by cases over the
requests.
-/
theorem Valid.perform (valid : h.Valid) (request : HeapRequest κ α)
    : h.contents.Answers h.capacity request (h.perform request).1 (h.perform request).2.contents
      ∧ (h.perform request).2.Valid
      ∧ (h.perform request).2.capacity = h.capacity := by
  cases request with
  | insert key value =>
      by_cases room : h.size < h.capacity
      · obtain ⟨handle, heap, inserted, fresh, validHeap, capacity, added⟩ :=
          valid.insert room key value
        simp only [FibonacciHeap.perform, inserted, Prod.map, HeapReply.ofInsert, id]
        refine ⟨?_, validHeap, capacity⟩
        rw [← update_insert valid validHeap fresh added]
        exact .insert valid.hasSize room (contents_eq_none.mpr fresh)
      · have full := Nat.le_antisymm valid.size_le (Nat.not_lt.mp room)
        simp only [FibonacciHeap.perform, insert_full (Nat.not_lt.mp room), Prod.map,
          HeapReply.ofInsert, id]
        exact ⟨.insertFull (full ▸ valid.hasSize), valid, trivial⟩
  | pop =>
      cases popped : h.pop? with
      | none =>
          simp only [FibonacciHeap.perform, popped]
          exact ⟨.popEmpty (contents_of_nil (pop?_eq_none.mp popped)), valid, trivial⟩
      | some result =>
          obtain ⟨e, heap⟩ := result
          obtain ⟨validHeap, capacity, removed⟩ := valid.pop? popped
          have shown : h.peek? = some e := by rw [← pop?_map_fst, popped]; rfl
          simp only [FibonacciHeap.perform, popped]
          refine ⟨?_, validHeap, capacity⟩
          rw [← update_pop valid validHeap removed]
          exact .pop (valid.least_peek? shown)
  | peek =>
      refine ⟨?_, valid, rfl⟩
      cases shown : h.peek? with
      | none =>
          simp only [FibonacciHeap.perform, shown]
          exact .peekEmpty (contents_of_nil (peek?_eq_none.mp shown))
      | some e =>
          simp only [FibonacciHeap.perform, shown]
          exact .peek (valid.least_peek? shown)
  | decreaseKey handle key =>
      cases found : h.entry? handle with
      | none =>
          simp only [FibonacciHeap.perform, decreaseKey_of_none found, Prod.map,
            HeapReply.ofDecreaseKey, id]
          exact ⟨.decreaseKeyStale (by simp [contents, found]), valid, trivial⟩
      | some e =>
          obtain ⟨member, rfl⟩ := valid.entry?_eq_some.mp found
          have live := valid.contents_eq_some.mpr member
          by_cases lower : key ≤ e.key
          · obtain ⟨heap, result, validHeap, capacity, lowered⟩ := valid.decreaseKey member lower
            simp only [FibonacciHeap.perform, result, Prod.map, HeapReply.ofDecreaseKey, id]
            refine ⟨?_, validHeap, capacity⟩
            rw [← update_decreaseKey valid validHeap member lowered]
            exact .decreaseKey live lower
          · have greater := not_le.mp lower
            simp only [FibonacciHeap.perform, valid.decreaseKey_of_lt member greater, Prod.map,
              HeapReply.ofDecreaseKey, id]
            exact ⟨.decreaseKeyIncreased live greater, valid, trivial⟩
  | key handle =>
      refine ⟨?_, valid, rfl⟩
      have shown : h.key? handle = (h.contents handle).map Prod.fst := by
        simp [key?, contents, Function.comp_def]
      simp only [FibonacciHeap.perform, shown]
      exact .key
  | get handle =>
      refine ⟨?_, valid, rfl⟩
      have shown : h.get? handle = (h.contents handle).map Prod.snd := by
        simp [get?, contents, Function.comp_def]
      simp only [FibonacciHeap.perform, shown]
      exact .get
  | modify handle f =>
      refine ⟨?_, valid.modify handle f, rfl⟩
      have shown : h.get? handle = (h.contents handle).map Prod.snd := by
        simp [get?, contents, Function.comp_def]
      simp only [FibonacciHeap.perform, shown, ← update_modify valid]
      exact .modify
  | size => exact ⟨.size valid.hasSize, valid, rfl⟩

/-- A valid heap answers any sequence of requests as its map allows, by induction over them. -/
theorem Valid.performAll (valid : h.Valid) (requests : List (HeapRequest κ α))
    : PriorityMap.AnswersAll h.capacity h.contents requests (h.performAll requests).1
        (h.performAll requests).2.contents
      ∧ (h.performAll requests).2.Valid
      ∧ (h.performAll requests).2.capacity = h.capacity := by
  induction requests generalizing h with
  | nil => exact ⟨.nil, valid, rfl⟩
  | cons request requests ih =>
      obtain ⟨answers, validAfter, capacity⟩ := valid.perform request
      obtain ⟨rest, validLast, capacityLast⟩ := ih validAfter
      rw [capacity] at rest capacityLast
      exact ⟨.cons answers rest, validLast, capacityLast⟩

-----------------------------------------------------------------------------------------
-- Taking out everything
-----------------------------------------------------------------------------------------

/-- Enough rounds take out every element, each time a least one; by induction over the rounds. -/
theorem Valid.popMany (valid : h.Valid) {rounds : Nat} (enough : h.size ≤ rounds)
    : (h.popMany rounds).1.Perm h.entries
      ∧ (h.popMany rounds).1.Pairwise (fun e f => e.key ≤ f.key)
      ∧ (h.popMany rounds).2.entries = [] := by
  induction rounds generalizing h with
  | zero =>
      have nothing : h.entries = [] := by
        rw [← List.length_eq_zero_iff, ← valid.size_eq]
        exact Nat.le_zero.mp enough
      simp [FibonacciHeap.popMany, nothing]
  | succ rounds ih =>
      cases popped : h.pop? with
      | none =>
          have nothing := pop?_eq_none.mp popped
          simp [FibonacciHeap.popMany, popped, nothing]
      | some result =>
          obtain ⟨e, heap⟩ := result
          obtain ⟨validHeap, _, removed⟩ := valid.pop? popped
          have shown : h.peek? = some e := by rw [← pop?_map_fst, popped]; rfl
          have fewer : heap.size ≤ rounds := by
            have count := removed.length_eq
            rw [List.length_cons, ← valid.size_eq, ← validHeap.size_eq] at count
            omega
          obtain ⟨all, sorted, nothing⟩ := ih validHeap fewer
          simp only [FibonacciHeap.popMany, popped]
          refine ⟨(all.cons e).trans removed.symm, List.pairwise_cons.mpr ⟨?_, sorted⟩, nothing⟩
          intro f hf
          refine (valid.peek?_least shown).2 f ?_
          exact removed.mem_iff.mpr (List.mem_cons_of_mem e (all.mem_iff.mp hf))

/-- Draining a valid heap lists its map and leaves nothing. -/
theorem Valid.drain (valid : h.Valid)
    : h.contents.Lists h.drain.1 ∧ h.drain.2.contents = PriorityMap.empty := by
  obtain ⟨all, sorted, nothing⟩ := valid.popMany (Nat.le_refl h.size)
  refine ⟨⟨?_, ?_, sorted⟩, contents_of_nil nothing⟩
  · exact (all.map Entry.handle).nodup_iff.mpr valid.distinct
  · intro handle key value
    rw [valid.contents_eq_some]
    exact all.mem_iff.symm

end FibonacciHeap

end Wayfinding
