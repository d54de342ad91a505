import BitcoinNodeTests.Foundation.Action

/-!
# An action that follows another

Two actions on states of two kinds, of which the second does what the first does for as long as
the first need not wait for more.  Where the first waits, the second has given up, or it has gone
on and is late: `late` is to be kept by whatever it does next.
-/

set_option autoImplicit false

namespace BitcoinNodeTests.Foundation

/-- How one action follows another: what each raises where there is nothing more, which states
belong together, and those the second stops in or goes on from. -/
structure Pace (σ τ ε : Type) where
  waiting : ε
  givesUp : ε
  together : σ → τ → Prop
  stopped : τ → Prop
  late : τ → Prop

namespace Pace

variable {σ τ ε α β : Type} (pace : Pace σ τ ε)

/-- It gave up, or is late whatever it ended with. -/
def Stops (ending : Except ε α × τ) : Prop :=
  pace.late ending.2 ∨ ending.1 = .error pace.givesUp ∧ pace.stopped ending.2

/-- Of two endings, the first of the action that is followed. -/
def Agrees (first : Except ε α × σ) (second : Except ε α × τ) : Prop :=
  first.1 = .error pace.waiting ∧ pace.Stops second ∨
    first.1 = second.1 ∧ pace.together first.2 second.2

def Follows (first : Action σ ε α) (second : Action τ ε α) : Prop :=
  ∀ state other, pace.together state other → pace.Agrees (first state) (second other)

def Stays (second : Action τ ε α) : Prop :=
  Action.Moves (fun before after => pace.late before → pace.late after) second

instance : IsPreorder τ fun before after => pace.late before → pace.late after where
  refl _ := id
  trans _ _ _ first second := second ∘ first

variable {pace}

theorem Follows.pure (value : α) :
    pace.Follows (Pure.pure value : Action σ ε α) (Pure.pure value : Action τ ε α) :=
  fun _ _ related => .inr ⟨rfl, related⟩

theorem Follows.read {view : σ → α} {other : τ → α}
    (same : ∀ {state following}, pace.together state following → view state = other following) :
    pace.Follows (Action.read view : Action σ ε α) (Action.read other : Action τ ε α) :=
  fun _ _ related => .inr ⟨congrArg Except.ok (same related), related⟩

/-- What follows one that gave up does not run, and what follows one that is late stays late. -/
theorem Agrees.bind {first : Action σ ε α} {second : Action τ ε α} {next : α → Action σ ε β}
    {after : α → Action τ ε β} {state : σ} {other : τ}
    (agrees : pace.Agrees (first state) (second other)) (stays : ∀ value, pace.Stays (after value))
    (goesOn : ∀ value reached left, first state = (.ok value, reached) →
      second other = (.ok value, left) → pace.together reached left →
        pace.Agrees (next value reached) (after value left)) :
    pace.Agrees ((first >>= next) state) ((second >>= after) other) := by
  rcases run : first state with ⟨error | value, reached⟩
  · rw [Action.bind_of_error next run]
    rw [run] at agrees
    rcases agrees with ⟨waits, late | ⟨stops, stopped⟩⟩ | ⟨same, related⟩
    · cases waits
      exact .inl ⟨rfl, .inl (Action.Moves.from_bind second stays other late)⟩
    · cases waits
      rcases runs : second other with ⟨raised, left⟩
      rw [runs] at stops stopped
      cases stops
      rw [Action.bind_of_error after runs]
      exact .inl ⟨rfl, .inr ⟨rfl, stopped⟩⟩
    · rcases runs : second other with ⟨raised, left⟩
      rw [runs] at same related
      cases same
      rw [Action.bind_of_error after runs]
      exact .inr ⟨rfl, related⟩
  · rw [Action.bind_of_ok next run]
    rw [run] at agrees
    rcases agrees with ⟨waits, -⟩ | ⟨same, related⟩
    · cases waits
    · rcases runs : second other with ⟨raised, left⟩
      rw [runs] at same related
      cases same
      rw [Action.bind_of_ok after runs]
      exact goesOn value reached left run runs related

theorem Follows.bind {first : Action σ ε α} {second : Action τ ε α} {next : α → Action σ ε β}
    {after : α → Action τ ε β} (follows : pace.Follows first second)
    (stays : ∀ value, pace.Stays (after value))
    (goesOn : ∀ value, pace.Follows (next value) (after value)) :
    pace.Follows (first >>= next) (second >>= after) :=
  fun state other related =>
    (follows state other related).bind stays fun value reached left _ _ together =>
      goesOn value reached left together

end Pace

end BitcoinNodeTests.Foundation
