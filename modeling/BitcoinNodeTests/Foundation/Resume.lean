import BitcoinNodeTests.Foundation.Action

/-!
# Actions that wait for more

An action whose state holds all it has been given so far may end waiting for more.  Run again
from the same state with more given to it, an ending that was no wait is the same ending, and
what it had done before it waited it does again.
-/

set_option autoImplicit false

namespace BitcoinNodeTests.Foundation.Action

variable {σ ε α β : Type}

section Resumes

variable (waiting : ε) (given ahead : σ → σ → Prop)

/-- Of two endings, the first of less given than the second: they are the same, or the first
is a wait and the second is ahead of it. -/
def Continues (first second : Except ε α × σ) : Prop :=
  first.1 = .error waiting ∧ ahead first.2 second.2 ∨
    first.1 = second.1 ∧ given first.2 second.2

/-- An action run from `state`, and from that state given more. -/
def ResumesAt (action : Action σ ε α) (state : σ) : Prop :=
  ∀ fuller, given state fuller → Continues waiting given ahead (action state) (action fuller)

def Resumes (action : Action σ ε α) : Prop := ∀ state, ResumesAt waiting given ahead action state

end Resumes

variable {waiting : ε} {given ahead : σ → σ → Prop}

theorem Resumes.pure (value : α) : Resumes waiting given ahead (pure value : Action σ ε α) :=
  fun _ _ gives => .inr ⟨rfl, gives⟩

theorem Resumes.raise (error : ε) :
    Resumes waiting given ahead (Action.raise error : Action σ ε α) :=
  fun _ _ gives => .inr ⟨rfl, gives⟩

theorem Resumes.read {view : σ → α} (same : ∀ {state fuller}, given state fuller →
    view state = view fuller) : Resumes waiting given ahead (Action.read view : Action σ ε α) :=
  fun _ _ gives => .inr ⟨congrArg Except.ok (same gives), gives⟩

theorem Resumes.update {change : σ → σ} (keeps : ∀ {state fuller}, given state fuller →
    given (change state) (change fuller)) :
    Resumes waiting given ahead (Action.update change : Action σ ε Unit) :=
  fun _ _ gives => .inr ⟨rfl, keeps gives⟩

/-- What follows a wait is ahead of it, and what follows anything else resumes from there. -/
theorem ResumesAt.bind [IsPreorder σ ahead] {first : Action σ ε α} {next : α → Action σ ε β}
    {state : σ} (resumes : ResumesAt waiting given ahead first state)
    (moves : ∀ value, Moves ahead (next value))
    (goesOn : ∀ value reached, first state = (.ok value, reached) →
      ResumesAt waiting given ahead (next value) reached) :
    ResumesAt waiting given ahead (first >>= next) state := by
  intro fuller gives
  have later := resumes fuller gives
  rcases run : first state with ⟨error | value, reached⟩
  · rw [bind_of_error next run]
    rw [run] at later
    rcases later with ⟨waits, further⟩ | ⟨same, given⟩
    · cases waits
      exact .inl ⟨rfl, IsTrans.trans _ _ _ further (Moves.from_bind first moves fuller)⟩
    · rcases runs : first fuller with ⟨other, final⟩
      rw [runs] at same given
      cases same
      rw [bind_of_error next runs]
      exact .inr ⟨rfl, given⟩
  · rw [bind_of_ok next run]
    rw [run] at later
    rcases later with ⟨waits, -⟩ | ⟨same, given⟩
    · cases waits
    · rcases runs : first fuller with ⟨other, final⟩
      rw [runs] at same given
      cases same
      rw [bind_of_ok next runs]
      exact goesOn value reached run final given

theorem Resumes.bind [IsPreorder σ ahead] {first : Action σ ε α} {next : α → Action σ ε β}
    (resumes : Resumes waiting given ahead first) (moves : ∀ value, Moves ahead (next value))
    (goesOn : ∀ value, Resumes waiting given ahead (next value)) :
    Resumes waiting given ahead (first >>= next) :=
  fun state => (resumes state).bind moves fun value reached _ => goesOn value reached

/-! ## Actions that go on -/

/-- An action that goes on from where it waited, and moves only ahead. -/
structure GoesOn (waiting : ε) (given ahead : σ → σ → Prop) (action : Action σ ε α) : Prop where
  resumes : Resumes waiting given ahead action
  moves : Moves ahead action

section GoesOn

variable [IsPreorder σ ahead]

theorem GoesOn.bind {first : Action σ ε α} {next : α → Action σ ε β}
    (firstGoes : GoesOn waiting given ahead first)
    (nextGoes : ∀ value, GoesOn waiting given ahead (next value)) :
    GoesOn waiting given ahead (first >>= next) where
  resumes := firstGoes.resumes.bind (fun value => (nextGoes value).moves)
    fun value => (nextGoes value).resumes
  moves := firstGoes.moves.bind fun value => (nextGoes value).moves

theorem GoesOn.pure (value : α) : GoesOn waiting given ahead (pure value : Action σ ε α) :=
  ⟨.pure value, .unchanged fun _ => rfl⟩

theorem GoesOn.raise (error : ε) :
    GoesOn waiting given ahead (Action.raise error : Action σ ε α) :=
  ⟨.raise error, .unchanged fun _ => rfl⟩

end GoesOn

/-- An action on the part that `view` shows and `change` puts back. -/
def onPart {τ : Type} (view : τ → σ) (change : σ → τ → τ) (action : Action σ ε α) :
    Action τ ε α := fun state =>
  let (result, reached) := action (view state)
  (result, change reached state)

theorem onPart_apply {τ : Type} (view : τ → σ) (change : σ → τ → τ) (action : Action σ ε α)
    (state : τ) :
    onPart view change action state =
      ((action (view state)).1, change (action (view state)).2 state) := rfl

theorem GoesOn.onPart {τ : Type} {view : τ → σ} {change : σ → τ → τ} {action : Action σ ε α}
    {givenWhole aheadWhole : τ → τ → Prop} (goes : GoesOn waiting given ahead action)
    (part : ∀ {state fuller}, givenWhole state fuller → given (view state) (view fuller))
    (given_change : ∀ {state fuller reached later}, givenWhole state fuller →
      given reached later → givenWhole (change reached state) (change later fuller))
    (ahead_change : ∀ {state fuller reached later}, givenWhole state fuller →
      ahead reached later → aheadWhole (change reached state) (change later fuller))
    (moves : ∀ {state reached}, ahead (view state) reached →
      aheadWhole state (change reached state)) :
    GoesOn waiting givenWhole aheadWhole (onPart view change action) := by
  refine ⟨fun state fuller gives => ?_, fun state => moves (goes.moves (view state))⟩
  rcases goes.resumes (view state) (view fuller) (part gives) with ⟨waits, further⟩ | ⟨same, given⟩
  · exact .inl ⟨waits, ahead_change gives further⟩
  · exact .inr ⟨same, given_change gives given⟩

end BitcoinNodeTests.Foundation.Action
