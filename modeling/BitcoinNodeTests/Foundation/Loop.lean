import Mathlib.Data.List.Basic

/-!
# Loops over a list that may raise

A loop whose body takes what was built so far and one element, and may raise.  A loop that
returned got past each element; one that raised did so at an element, from what those before
it built.
-/

set_option autoImplicit false

namespace BitcoinNodeTests.Foundation.Loop

variable {σ α ε : Type} {body : σ → α → Except ε σ}

theorem ok_split {before after : List α} {element : α} {start final : σ}
    (run : (before ++ element :: after).foldlM body start = .ok final) :
    ∃ reached next, before.foldlM body start = .ok reached ∧ body reached element = .ok next ∧
      after.foldlM body next = .ok final := by
  rw [List.foldlM_append] at run
  cases first : before.foldlM body start with
  | error error =>
      rw [first] at run
      cases run
  | ok reached =>
      rw [first] at run
      have later : (element :: after).foldlM body reached = .ok final := run
      rw [List.foldlM_cons] at later
      cases step : body reached element with
      | error error =>
          rw [step] at later
          cases later
      | ok next =>
          rw [step] at later
          exact ⟨reached, next, rfl, step, later⟩

theorem error_split {elements : List α} {start : σ} {error : ε}
    (run : elements.foldlM body start = .error error) :
    ∃ before element after reached, elements = before ++ element :: after ∧
      before.foldlM body start = .ok reached ∧ body reached element = .error error := by
  induction elements generalizing start with
  | nil => cases run
  | cons element rest ih =>
      rw [List.foldlM_cons] at run
      cases step : body start element with
      | error raised =>
          rw [step] at run
          cases run
          exact ⟨[], element, rest, start, rfl, rfl, step⟩
      | ok next =>
          rw [step] at run
          obtain ⟨before, other, after, reached, rfl, first, raises⟩ := ih run
          refine ⟨element :: before, other, after, reached, rfl, ?_, raises⟩
          rw [List.foldlM_cons, step]
          exact first

theorem mapM_mem {β : Type} {read : α → Except ε β} {elements : List α} {results : List β}
    (run : elements.mapM read = .ok results) {element : α} (member : element ∈ elements) :
    ∃ result ∈ results, read element = .ok result := by
  induction elements generalizing results with
  | nil => cases member
  | cons first rest ih =>
      rw [List.mapM_cons] at run
      cases step : read first with
      | error error =>
          rw [step] at run
          cases run
      | ok value =>
          rw [step] at run
          cases others : rest.mapM read with
          | error error =>
              rw [others] at run
              cases run
          | ok values =>
              rw [others] at run
              cases run
              rcases List.mem_cons.mp member with rfl | later
              · exact ⟨value, List.mem_cons_self, step⟩
              · obtain ⟨result, found, reads⟩ := ih others later
                exact ⟨result, List.mem_cons_of_mem value found, reads⟩

/-- A list each element of which is read is read, and nothing else is read of it. -/
theorem mapM_ok {β : Type} {read : α → Except ε β} {elements : List α}
    (reads : ∀ element ∈ elements, ∃ result, read element = .ok result) :
    ∃ results, elements.mapM read = .ok results ∧
      ∀ result ∈ results, ∃ element ∈ elements, read element = .ok result := by
  induction elements with
  | nil => exact ⟨[], rfl, fun _ member => absurd member List.not_mem_nil⟩
  | cons first rest ih =>
      obtain ⟨value, step⟩ := reads first List.mem_cons_self
      obtain ⟨values, run, only⟩ := ih fun element member =>
        reads element (List.mem_cons_of_mem first member)
      refine ⟨value :: values, ?_, ?_⟩
      · rw [List.mapM_cons, step, run]
        rfl
      · intro result member
        rcases List.mem_cons.mp member with rfl | later
        · exact ⟨first, List.mem_cons_self, step⟩
        · obtain ⟨element, among, same⟩ := only result later
          exact ⟨element, List.mem_cons_of_mem first among, same⟩

theorem foldlM_filter {kept : α → Bool} (passes : ∀ reached element, kept element = false →
    body reached element = .ok reached) (elements : List α) (start : σ) :
    elements.foldlM body start = (elements.filter kept).foldlM body start := by
  induction elements generalizing start with
  | nil => rfl
  | cons element rest ih =>
      rw [List.foldlM_cons, List.filter_cons]
      cases isKept : kept element with
      | false =>
          rw [passes start element isKept, if_neg (by simp)]
          exact ih start
      | true =>
          rw [if_pos rfl, List.foldlM_cons]
          exact congrArg _ (funext ih)

end BitcoinNodeTests.Foundation.Loop
