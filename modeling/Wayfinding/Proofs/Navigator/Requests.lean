import Wayfinding.Proofs.Navigator.Edits
import Wayfinding.Proofs.Navigator.Independence
import Wayfinding.Proofs.Navigator.Marking

/-! Maps after any requests. The edits among them make of a map with buffers what they make of one
without; the queries among them make nothing of it that another query could learn of.
-/

namespace Wayfinding.Navigator

variable {n after : Navigator} {m : GridMap}

-----------------------------------------------------------------------------------------
-- Requests
-----------------------------------------------------------------------------------------

/-- What a request makes of a map if queries make nothing of it. -/
def Request.edit (m : GridMap) : Request → GridMap
  | .block p => (m.block p).2
  | .clear p => (m.clear p).2
  | .blockAll cells => (m.blockAll cells).2
  | .clearAll => m.clearAll
  | .configure settings => m.configure settings
  | .markComponents => m.markComponents
  | .query _ => m

theorem Edit.edit_request (m : GridMap) (edit : Edit)
    : edit.request.edit m = (edit.onMap m).2 := by
  cases edit <;> rfl

/-- A request for an edit makes of a map with buffers what it makes of one without. -/
theorem Edit.perform_undisturbed (edit : Edit) (performed : n.perform edit.request = some after)
    : (edit.request.edit n.toGridMap).Undisturbed after.toGridMap := by
  rw [perform_request] at performed
  obtain ⟨⟨outcome, _⟩, applied, rfl⟩ := Option.map_eq_some_iff.mp performed
  have same := edit.map_apply n
  rw [applied, Option.map_some, Option.some.injEq] at same
  rw [edit_request, ← same]
  exact .refl _

/-- A request makes of a map with buffers what it makes of one without. -/
theorem perform_undisturbed {r : Request} (performed : n.perform r = some after)
    : (r.edit n.toGridMap).Undisturbed after.toGridMap := by
  cases r with
  | block p => exact Edit.perform_undisturbed (.block p) performed
  | clear p => exact Edit.perform_undisturbed (.clear p) performed
  | blockAll cells => exact Edit.perform_undisturbed (.blockAll cells) performed
  | clearAll => exact Edit.perform_undisturbed .clearAll performed
  | configure settings =>
      cases performed
      exact .refl _
  | markComponents =>
      cases performed
      rw [markComponents_eq]
      exact .refl _
  | query q =>
      obtain ⟨⟨reply, _⟩, asked, rfl⟩ := Option.map_eq_some_iff.mp performed
      exact (leaves_ask asked).map

/-- What queries leave behind makes no difference to an edit of the obstacles. -/
theorem Edit.edit_undisturbed {other : GridMap} (alike : m.Undisturbed other) (edit : Edit)
    : (edit.request.edit m).Undisturbed (edit.request.edit other) := by
  obtain ⟨start, goal, path, rfl⟩ := alike
  rw [edit_request, edit_request, onMap_eq, onMap_eq]
  cases m.extent.firstOutside? edit.cells <;> exact ⟨start, goal, path, rfl⟩

/-- What queries leave behind makes no difference to a request that is no query. -/
theorem edit_undisturbed {other : GridMap} (alike : m.Undisturbed other) (r : Request)
    : (r.edit m).Undisturbed (r.edit other) := by
  cases r with
  | block p => exact Edit.edit_undisturbed alike (.block p)
  | clear p => exact Edit.edit_undisturbed alike (.clear p)
  | blockAll cells => exact Edit.edit_undisturbed alike (.blockAll cells)
  | clearAll => exact Edit.edit_undisturbed alike .clearAll
  | configure | markComponents | query =>
      obtain ⟨start, goal, path, rfl⟩ := alike
      exact ⟨start, goal, path, rfl⟩

/-- Any requests make of a map what the edits among them make of one without buffers, by induction
over the requests.
-/
theorem performAll_undisturbed {requests : List Request} (alike : m.Undisturbed n.toGridMap)
    (performed : n.performAll requests = some after)
    : (requests.foldl Request.edit m).Undisturbed after.toGridMap := by
  induction requests generalizing n m with
  | nil =>
      cases performed
      exact alike
  | cons r requests ih =>
      obtain ⟨next, first, rest⟩ := Option.bind_eq_some_iff.mp performed
      exact ih ((edit_undisturbed alike r).trans (perform_undisturbed first)) rest

-----------------------------------------------------------------------------------------
-- Queries after requests
-----------------------------------------------------------------------------------------

/-- A map with new buffers and without what queries leave behind. -/
def renew (n : Navigator) : Navigator :=
  ofMap { n.toGridMap with start := none, goal := none, latestPath := [] }

/-- After any requests to a map, a query is replied to as by a new map of the same extent with the
same obstacles, settings, and marked parts, and as if there had been no queries among the requests.
Whatever the reply is, these stay as they are; an end outside leaves the whole map alone, and one
that is blocked only leaves the ends behind.
-/
theorem ask_independent {first : Navigator} {requests : List Request}
    (performed : first.performAll requests = some n) (q : Query)
    : (n.ask q).map Prod.fst = (n.renew.ask q).map Prod.fst
      ∧ (n.ask q).map Prod.fst
        = ((ofMap (requests.foldl Request.edit first.toGridMap)).ask q).map Prod.fst
      ∧ ∀ reply after, n.ask q = some (reply, after) → n.Leaves reply.fault? after := by
  have edited : (requests.foldl Request.edit first.toGridMap).Undisturbed n.toGridMap :=
    performAll_undisturbed (.refl _) performed
  refine ⟨ask_undisturbed ⟨none, none, [], rfl⟩ q, ask_undisturbed edited.symm q, ?_⟩
  intro reply after asked
  exact leaves_ask asked

/-- Requests that leave the buffers of a search behind that has ended early, the ends of a query that
was refused, and parts that are marked anew.
-/
def errands : List Request :=
  [.query (.rawCells ⟨0, 0⟩ ⟨3, 0⟩), .query (.cells ⟨0, 0⟩ ⟨1, 0⟩), .block ⟨3, 2⟩, .markComponents,
    .configure {}]

theorem ask_independent_errands
    : ∃ n,
        (ofMap GridMap.squeeze).performAll errands = some n
        ∧ (n.ask (.rawCells ⟨0, 0⟩ ⟨2, 0⟩)).map Prod.fst
          = (n.renew.ask (.rawCells ⟨0, 0⟩ ⟨2, 0⟩)).map Prod.fst
        ∧ (∃ reply,
            n.ask (.rawCells ⟨0, 0⟩ ⟨4, 0⟩) = some (reply, n)
            ∧ reply.fault? = some (.outOfBounds ⟨4, 0⟩))
        ∧ ∃ reply start goal,
            n.ask (.rawCells ⟨0, 0⟩ ⟨3, 2⟩) = some (reply, { n with start := start, goal := goal })
            ∧ reply.fault? = some (.blockedEnd ⟨3, 2⟩) := by
  have refused : ((ofMap GridMap.squeeze).performAll errands).bind (fun n =>
      (n.ask (.rawCells ⟨0, 0⟩ ⟨4, 0⟩)).bind fun asked => asked.1.fault?)
        = some (.outOfBounds ⟨4, 0⟩) := by decide +kernel
  have blocked : ((ofMap GridMap.squeeze).performAll errands).bind (fun n =>
      (n.ask (.rawCells ⟨0, 0⟩ ⟨3, 2⟩)).bind fun asked => asked.1.fault?)
        = some (.blockedEnd ⟨3, 2⟩) := by decide +kernel
  obtain ⟨n, performed, refused⟩ := Option.bind_eq_some_iff.mp refused
  rw [performed, Option.bind_some] at blocked
  obtain ⟨⟨reply, after⟩, asked, outside⟩ := Option.bind_eq_some_iff.mp refused
  obtain ⟨⟨other, left⟩, otherAsked, inside⟩ := Option.bind_eq_some_iff.mp blocked
  obtain ⟨-, -, leaves⟩ := ask_independent performed (.rawCells ⟨0, 0⟩ ⟨4, 0⟩)
  obtain ⟨-, -, otherLeaves⟩ := ask_independent performed (.rawCells ⟨0, 0⟩ ⟨3, 2⟩)
  obtain rfl := (leaves reply after asked).outside _ outside
  obtain ⟨start, goal, rfl⟩ := (otherLeaves other left otherAsked).blocked _ (Or.inr inside)
  exact ⟨after, performed, (ask_independent performed _).1, ⟨reply, asked, outside⟩, other, start,
    goal, otherAsked, inside⟩

end Wayfinding.Navigator
