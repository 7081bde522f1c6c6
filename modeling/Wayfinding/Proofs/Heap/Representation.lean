import Wayfinding.Proofs.Heap.Refinement

/-! A heap in slots stands for a map from handles to keys and values, whatever the history of its
calls. It answers as the map allows, a request that it refuses leaves it as it is, and taking out
everything lists the map.
-/

namespace Wayfinding.Arena

variable {κ α : Type} {a after : Arena κ α}

/-- The elements in slots by their handles. -/
def contents (a : Arena κ α) : PriorityMap κ α :=
  fun i => (a.entry? i).map fun e => (e.key, e.value)

variable [LinearOrder κ] {h : FibonacciHeap κ α}

-----------------------------------------------------------------------------------------
-- Refusals
-----------------------------------------------------------------------------------------

theorem eq_of_insert_error {key : κ} {value : α} {reason : HeapFault}
    (refused : a.insert key value = some (.error reason, after))
    : after = a := by
  rw [insert] at refused
  split at refused
  · cases refused
    rfl
  · simp [Option.bind_eq_some_iff] at refused

theorem eq_of_decreaseKey_error {handle : Nat} {key : κ} {reason : HeapFault}
    (refused : a.decreaseKey handle key = some (.error reason, after))
    : after = a := by
  rw [decreaseKey] at refused
  split at refused
  · cases refused
    rfl
  · split at refused
    · cases refused
      rfl
    · simp only [Option.bind_eq_bind, Option.bind_eq_some_iff] at refused
      obtain ⟨_, _, _, _, refused⟩ := refused
      split at refused
      · cases refused
      · simp [Option.bind_eq_some_iff] at refused

/-- A request that is refused leaves the heap as it is, by cases over the requests. -/
theorem eq_of_refused {request : HeapRequest κ α} {reason : HeapFault}
    (refused : a.perform request = some (.refused reason, after))
    : after = a := by
  cases request with
  | insert key value =>
      obtain ⟨⟨_ | _, left⟩, inserted, same⟩ := Option.map_eq_some_iff.mp refused
      · cases same
        exact eq_of_insert_error inserted
      · cases same
  | decreaseKey handle key =>
      obtain ⟨⟨_ | _, left⟩, decreased, same⟩ := Option.map_eq_some_iff.mp refused
      · cases same
        exact eq_of_decreaseKey_error decreased
      · cases same
  | pop | peek =>
      obtain ⟨_, _, same⟩ := Option.bind_eq_some_iff.mp refused
      cases same
  | key | get | modify | size => cases refused

-----------------------------------------------------------------------------------------
-- Taking out everything
-----------------------------------------------------------------------------------------

theorem Models.contents (models : a.Models h) (valid : h.Valid) : a.contents = h.contents := by
  funext i
  rw [Arena.contents, FibonacciHeap.contents, models.entry? valid]

/-- Elements come out of slots as they come out of trees, by induction over their number. -/
theorem Models.popMany (models : a.Models h) (valid : h.Valid) (n : Nat)
    : ∃ last,
        a.popMany n = some ((h.popMany n).1, last)
        ∧ last.Models (h.popMany n).2
        ∧ (h.popMany n).2.Valid := by
  induction n generalizing a h with
  | zero => exact ⟨a, rfl, models, valid⟩
  | succ n ih =>
      rw [Arena.popMany, FibonacciHeap.popMany]
      cases popped : h.pop? with
      | none =>
          rw [models.pop_none popped]
          exact ⟨a, rfl, models, valid⟩
      | some result =>
          obtain ⟨e, heap⟩ := result
          obtain ⟨a', stepped, modelled⟩ := models.pop_some valid popped
          obtain ⟨last, done, modelsLast, validLast⟩ := ih modelled (valid.pop? popped).1
          refine ⟨last, ?_, modelsLast, validLast⟩
          simp only [stepped, Option.bind_eq_bind, Option.bind_some, done]
          rfl

/-- Draining the slots lists the map and leaves nothing. -/
theorem Models.drain (models : a.Models h) (valid : h.Valid)
    : ∃ es last, a.drain = some (es, last) ∧ h.contents.Lists es ∧ last.contents = .empty := by
  obtain ⟨last, done, modelsLast, validLast⟩ := models.popMany valid h.size
  obtain ⟨lists, nothing⟩ := valid.drain
  refine ⟨_, last, ?_, lists, (modelsLast.contents validLast).trans nothing⟩
  rw [Arena.drain, models.size]
  exact done

-----------------------------------------------------------------------------------------
-- All histories
-----------------------------------------------------------------------------------------

/-- The heap stands for the map: it has the elements of the map and counts them, of which there are
never more than allowed. It shows the element that it would give out next, a request that it refuses
leaves it as it is, and draining it lists the map and leaves nothing.
-/
structure Represents (a : Arena κ α) (capacity : Nat) (m : PriorityMap κ α) : Prop where
  contents : a.contents = m
  size : m.HasSize a.size
  size_le : a.size ≤ capacity
  shown : ∃ reply after, a.perform .pop = some (reply, after) ∧ a.perform .peek = some (reply, a)
  refused : ∀ request reason after, a.perform request = some (.refused reason, after) → after = a
  drained : ∃ es last, a.drain = some (es, last) ∧ m.Lists es ∧ last.contents = .empty

theorem Models.represents (models : a.Models h) (valid : h.Valid)
    : a.Represents h.capacity h.contents where
  contents := models.contents valid
  size := by
    rw [models.size]
    exact valid.hasSize
  size_le := by
    rw [models.size]
    exact valid.size_le
  shown := by
    obtain ⟨after, popped, _⟩ := models.perform valid .pop
    have same : (h.perform .pop).1 = (h.perform .peek).1 := by
      simp only [FibonacciHeap.perform, ← FibonacciHeap.pop?_map_fst]
      cases h.pop? <;> rfl
    refine ⟨_, after, popped, ?_⟩
    rw [same, Arena.perform, models.peek]
    rfl
  refused _ _ _ := eq_of_refused
  drained := models.drain valid

/-- Every sequence of requests to a heap that began empty is answered as a map from handles to keys
and values allows, and the heap stands for that map afterwards.
-/
theorem performAll_refines {capacity : Nat} (positive : 0 < capacity)
    (requests : List (HeapRequest κ α))
    : ∃ start : Arena κ α,
        Arena.empty κ α capacity = .ok start
        ∧ ∃ replies last m,
            start.performAll requests = some (replies, last)
            ∧ PriorityMap.AnswersAll capacity .empty requests replies m
            ∧ last.Represents capacity m := by
  obtain ⟨start, created⟩ := exists_empty positive
  obtain ⟨replies, last, h, done, reached⟩ := exists_reached created requests
  have represents := reached.models.represents reached.valid
  rw [reached.capacity] at represents
  exact ⟨start, created, replies, last, h.contents, done, reached.answers, represents⟩

/-- Requests to a heap for two elements: one too many, a key that is lowered, a handle that is given
out again, and a key that would grow.
-/
def bustle : List (HeapRequest Int String) :=
  [.insert 5 "a", .insert 7 "b", .insert 6 "c", .decreaseKey 1 4, .pop, .insert 9 "d",
    .decreaseKey 1 10]

theorem performAll_refines_bustle
    : 0 < 2
      ∧ ∃ start last m,
          Arena.empty Int String 2 = .ok start
          ∧ start.performAll bustle
            = some ([.handle 0, .handle 1, .refused (.capacityExceeded 2), .lowered,
                .element (some (4, "b")), .handle 1, .refused .keyIncreased], last)
          ∧ PriorityMap.AnswersAll 2 .empty bustle
              [.handle 0, .handle 1, .refused (.capacityExceeded 2), .lowered,
                .element (some (4, "b")), .handle 1, .refused .keyIncreased] m
          ∧ last.Represents 2 m := by
  obtain ⟨start, created, replies, last, m, done, answers, represents⟩ :=
    performAll_refines (by decide : 0 < 2) bustle
  have computed : ((Arena.empty Int String 2).toOption.bind fun start =>
      (start.performAll bustle).map Prod.fst)
      = some [.handle 0, .handle 1, .refused (.capacityExceeded 2), .lowered,
          .element (some (4, "b")), .handle 1, .refused .keyIncreased] := by decide +kernel
  rw [created] at computed
  obtain ⟨⟨_, _⟩, done', rfl⟩ := Option.map_eq_some_iff.mp computed
  cases done.symm.trans done'
  exact ⟨by decide, start, last, m, created, done, answers, represents⟩

end Wayfinding.Arena
