import Mathlib.Data.List.Basic

/-!
# Runs of a partial step

A run is a list of moves made one after another, which stops where a move cannot be made.
-/

set_option autoImplicit false

namespace BitcoinNodeTests.Foundation

variable {σ μ : Type} {step : μ → σ → Option σ}

def steps (step : μ → σ → Option σ) : List μ → σ → Option σ
  | [], state => some state
  | move :: moves, state => (step move state).bind (steps step moves)

theorem steps_keep {holds : σ → Prop}
    (keeps : ∀ {move state reached}, holds state → step move state = some reached → holds reached)
    {moves : List μ} {state reached : σ} (start : holds state)
    (ran : steps step moves state = some reached) : holds reached := by
  induction moves generalizing state with
  | nil =>
      cases ran
      exact start
  | cons move moves ih =>
      obtain ⟨middle, moved, rest⟩ := Option.bind_eq_some_iff.mp ran
      exact ih (keeps start moved) rest

end BitcoinNodeTests.Foundation
