import Mathlib.Logic.Relation

/-!
# A loop given so many turns

A turn ends the loop or leaves a state to go on from.  What holds of the loop however many turns
it is given holds of each turn it reaches, and a loop whose turns get smaller comes to an end.
-/

set_option autoImplicit false

namespace BitcoinNodeTests.Foundation

open Relation

variable {σ ρ : Type}

structure Turns (loop : Nat → σ → ρ × σ) (out : ρ) (turn : σ → σ → Prop) : Prop where
  spent : ∀ state, loop 0 state = (out, state)
  step : ∀ state, (∃ reached, turn state reached ∧
      ∀ turns, loop (turns + 1) state = loop turns reached) ∨
    (∀ reached, ¬ turn state reached) ∧
      ∃ ending, ending.1 ≠ out ∧ ∀ turns, loop (turns + 1) state = ending

namespace Turns

variable {loop : Nat → σ → ρ × σ} {out : ρ} {turn : σ → σ → Prop}

/-- A loop of turns that get smaller ends before it has none left. -/
theorem ends (turns : Turns loop out turn) {size : σ → Nat}
    (smaller : ∀ state reached, turn state reached → size reached < size state) (enough : Nat) :
    ∀ state, size state < enough → (loop enough state).1 ≠ out := by
  induction enough with
  | zero => exact fun _ none => absurd none (Nat.not_lt_zero _)
  | succ enough ih =>
      intro state bound
      rcases turns.step state with ⟨reached, moved, goesOn⟩ | ⟨-, ending, ended, stops⟩
      · rw [goesOn]
        exact ih reached (by have := smaller _ _ moved; omega)
      · rw [stops]
        exact ended

/-- A turn from a state the loop reaches is the last turn of a longer loop. -/
theorem reached_turn (turns : Turns loop out turn)
    (functional : ∀ {state first second}, turn state first → turn state second → first = second)
    {state reached : σ} (reaches : ReflTransGen turn state reached) :
    ∃ before, ∀ more, loop (before + more) state = loop more reached := by
  induction reaches using ReflTransGen.head_induction_on with
  | refl => exact ⟨0, fun more => by rw [Nat.zero_add]⟩
  | head moved _ ih =>
      obtain ⟨before, same⟩ := ih
      refine ⟨before + 1, fun more => ?_⟩
      rcases turns.step _ with ⟨next, moves, goesOn⟩ | ⟨stuck, -⟩
      · rw [functional moved moves] at same
        rw [Nat.add_right_comm, goesOn, same]
      · exact absurd moved (stuck _)

/-- What is good of a state is so of every turn reached where it is of every run of the loop, if
a loop never ends well in a state it left badly. -/
theorem good_iff (turns : Turns loop out turn)
    (functional : ∀ {state first second}, turn state first → turn state second → first = second)
    {good : σ → Prop} (back : ∀ turns state, good (loop turns state).2 → good state) (state : σ) :
    (∀ turns, good (loop turns state).2) ↔
      ∀ reached, ReflTransGen turn state reached → good (loop 1 reached).2 := by
  constructor
  · intro all reached reaches
    obtain ⟨before, same⟩ := turns.reached_turn functional reaches
    rw [← same]
    exact all _
  · intro each count
    induction count generalizing state with
    | zero =>
        rw [turns.spent]
        exact back 1 state (each state .refl)
    | succ count ih =>
        rcases turns.step state with ⟨reached, moved, goesOn⟩ | ⟨-, ending, -, stops⟩
        · rw [goesOn]
          exact ih reached fun final reaches => each final (.head moved reaches)
        · have only := each state .refl
          rw [stops] at only ⊢
          exact only

end Turns

end BitcoinNodeTests.Foundation
