import Mathlib.Data.List.Basic
import Mathlib.Order.Defs.Unbundled

/-!
# Stateful actions that may raise

An action takes a state, returns a value or raises an error, and in both cases
leaves the state it reached: an error rolls nothing back.  The inversion lemmas
take a run apart at each `bind`, and `Moves` says that a preorder on the states holds
between the state an action starts in and the one it leaves, however it ends.
-/

set_option autoImplicit false

namespace BitcoinNodeTests.Foundation

def Action (σ ε α : Type) : Type := σ → Except ε α × σ

namespace Action

variable {σ ε α β : Type}

def bind (first : Action σ ε α) (next : α → Action σ ε β) : Action σ ε β := fun state =>
  match first state with
  | (.ok value, reached) => next value reached
  | (.error error, reached) => (.error error, reached)

instance : Monad (Action σ ε) where
  pure value := fun state => (.ok value, state)
  bind := bind

def raise (error : ε) : Action σ ε α := fun state => (.error error, state)

def read (view : σ → α) : Action σ ε α := fun state => (.ok (view state), state)

def update (change : σ → σ) : Action σ ε Unit := fun state => (.ok (), change state)

/-- `try: body except error: handler`, where the handler raises or gives the value. -/
def rescue (body : Action σ ε α) (handler : ε → Action σ ε α) : Action σ ε α := fun state =>
  match body state with
  | (.ok value, reached) => (.ok value, reached)
  | (.error error, reached) => handler error reached

def ensuring (body : Action σ ε α) (after : σ → σ) : Action σ ε α := fun state =>
  let (result, reached) := body state
  (result, after reached)

@[simp] theorem pure_apply (value : α) (state : σ) :
    (pure value : Action σ ε α) state = (.ok value, state) := rfl

@[simp] theorem raise_apply (error : ε) (state : σ) :
    (raise error : Action σ ε α) state = (.error error, state) := rfl

@[simp] theorem read_apply (view : σ → α) (state : σ) :
    (read view : Action σ ε α) state = (.ok (view state), state) := rfl

@[simp] theorem update_apply (change : σ → σ) (state : σ) :
    (update change : Action σ ε Unit) state = (.ok (), change state) := rfl

theorem bind_apply (first : Action σ ε α) (next : α → Action σ ε β) (state : σ) :
    (first >>= next) state = match first state with
      | (.ok value, reached) => next value reached
      | (.error error, reached) => (.error error, reached) := rfl

theorem rescue_apply (body : Action σ ε α) (handler : ε → Action σ ε α) (state : σ) :
    rescue body handler state = match body state with
      | (.ok value, reached) => (.ok value, reached)
      | (.error error, reached) => handler error reached := rfl

theorem ensuring_apply (body : Action σ ε α) (after : σ → σ) (state : σ) :
    ensuring body after state = ((body state).1, after (body state).2) := rfl

/-- Not an instance: where the monad laws rewrite a run, `bind_apply` no longer applies. -/
theorem lawful : LawfulMonad (Action σ ε) :=
  LawfulMonad.mk' _
    (fun action => by
      funext state
      show (action >>= fun value => pure value) state = action state
      rw [bind_apply]
      rcases action state with ⟨_ | _, _⟩ <;> rfl)
    (fun _ _ => rfl)
    (fun action next later => by
      funext state
      rw [bind_apply, bind_apply, bind_apply]
      rcases action state with ⟨_ | _, _⟩ <;> rfl)

theorem bind_of_ok {first : Action σ ε α} (next : α → Action σ ε β) {state reached : σ}
    {value : α} (run : first state = (.ok value, reached)) :
    (first >>= next) state = next value reached := by
  rw [bind_apply, run]

theorem bind_of_error {first : Action σ ε α} (next : α → Action σ ε β) {state reached : σ}
    {error : ε} (run : first state = (.error error, reached)) :
    (first >>= next) state = (.error error, reached) := by
  rw [bind_apply, run]

@[simp] theorem read_bind (view : σ → α) (next : α → Action σ ε β) (state : σ) :
    (read view >>= next) state = next (view state) state := rfl

@[simp] theorem update_bind (change : σ → σ) (next : Unit → Action σ ε β) (state : σ) :
    (update change >>= next) state = next () (change state) := rfl

@[simp] theorem pure_bind_apply (value : α) (next : α → Action σ ε β) (state : σ) :
    ((pure value : Action σ ε α) >>= next) state = next value state := rfl

theorem bind_ok_iff {first : Action σ ε α} {next : α → Action σ ε β} {state final : σ}
    {result : β} :
    (first >>= next) state = (.ok result, final) ↔
      ∃ value reached, first state = (.ok value, reached) ∧
        next value reached = (.ok result, final) := by
  rw [bind_apply]
  rcases run : first state with ⟨_ | value, reached⟩
  · simp
  · simp

/-- A sequence that raised did so in its first part, or in its second from where
the first returned. -/
theorem bind_error_iff {first : Action σ ε α} {next : α → Action σ ε β} {state final : σ}
    {error : ε} :
    (first >>= next) state = (.error error, final) ↔
      first state = (.error error, final) ∨
        ∃ value reached, first state = (.ok value, reached) ∧
          next value reached = (.error error, final) := by
  rw [bind_apply]
  rcases run : first state with ⟨_ | value, reached⟩
  · simp
  · simp

theorem run_of_result {outcome : Except ε α × σ} {value : α} (result : outcome.1 = .ok value) :
    ∃ final, outcome = (.ok value, final) :=
  ⟨outcome.2, Prod.ext result rfl⟩

/-! ## Results alone -/

theorem result_bind_ok {first : Except ε α} {next : α → Except ε β} {result : β}
    (run : (first >>= next) = .ok result) :
    ∃ value, first = .ok value ∧ next value = .ok result := by
  cases first with
  | error raised => cases run
  | ok value => exact ⟨value, rfl, run⟩

theorem result_bind_error {first : Except ε α} {next : α → Except ε β} {error : ε}
    (run : (first >>= next) = .error error) :
    first = .error error ∨ ∃ value, first = .ok value ∧ next value = .error error := by
  cases first with
  | error raised =>
      have same : raised = error := Except.error.inj run
      exact .inl (congrArg Except.error same)
  | ok value => exact .inr ⟨value, rfl, run⟩

/-! ## What every ending keeps -/

def Moves (relation : σ → σ → Prop) (action : Action σ ε α) : Prop :=
  ∀ state, relation state (action state).2

theorem Moves.of_run {relation : σ → σ → Prop} {action : Action σ ε α} {state reached : σ}
    {result : Except ε α} (moves : Moves relation action)
    (run : action state = (result, reached)) : relation state reached := by
  have moved := moves state
  rwa [run] at moved

section Moves

variable {relation : σ → σ → Prop} [IsPreorder σ relation]

theorem Moves.unchanged {action : Action σ ε α} (same : ∀ state, (action state).2 = state) :
    Moves relation action := by
  intro state
  rw [same state]
  exact Std.Refl.refl state

theorem Moves.from_bind (first : Action σ ε α) {next : α → Action σ ε β}
    (nextMoves : ∀ value, Moves relation (next value)) (state : σ) :
    relation (first state).2 ((first >>= next) state).2 := by
  rw [bind_apply]
  rcases first state with ⟨error | value, reached⟩
  · exact Std.Refl.refl reached
  · exact nextMoves value reached

theorem Moves.bind {first : Action σ ε α} {next : α → Action σ ε β}
    (firstMoves : Moves relation first) (nextMoves : ∀ value, Moves relation (next value)) :
    Moves relation (first >>= next) := by
  intro state
  exact IsTrans.trans _ _ _ (firstMoves state) (Moves.from_bind first nextMoves state)

theorem Moves.rescue {body : Action σ ε α} {handler : ε → Action σ ε α}
    (bodyMoves : Moves relation body) (handlerMoves : ∀ error, Moves relation (handler error)) :
    Moves relation (rescue body handler) := by
  intro state
  have moved := bodyMoves state
  unfold Action.rescue
  rcases run : body state with ⟨error | value, reached⟩
  · rw [run] at moved
    exact IsTrans.trans _ _ _ moved (handlerMoves error reached)
  · rw [run] at moved
    exact moved

theorem Moves.ensuring {body : Action σ ε α} {after : σ → σ} (bodyMoves : Moves relation body)
    (afterMoves : ∀ state, relation state (after state)) :
    Moves relation (ensuring body after) := by
  intro state
  exact IsTrans.trans _ _ _ (bodyMoves state) (afterMoves _)

end Moves

end Action

end BitcoinNodeTests.Foundation
