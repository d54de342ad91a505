import BitcoinNodeTests.Foundation.Action

/-!
# Exceptions that keep what was being handled

An exception raised while another is being handled keeps that one as its context, and
one raised from another keeps its cause, with the context suppressed.  An action here is
given the exception being handled, and a traceback is what a raise leaves of all of them.
-/

set_option autoImplicit false

namespace BitcoinNodeTests.Foundation

/-- An exception with its `__cause__`, its `__context__` and `__suppress_context__`. -/
inductive Traceback (ε : Type) where
  | empty
  | raised (error : ε) (cause context : Traceback ε) (suppressed : Bool)

namespace Traceback

variable {ε : Type}

def error : Traceback ε → Option ε
  | empty => none
  | raised error _ _ _ => some error

/-- The errors a traceback printer reports, the one raised last first: each is followed by its
cause where it has one, otherwise by its context where that is not suppressed. -/
def reported : Traceback ε → List ε
  | empty => []
  | raised error empty context suppressed =>
      error :: if suppressed then [] else context.reported
  | raised error (raised from_ cause context suppressed) _ _ =>
      error :: (raised from_ cause context suppressed).reported

end Traceback

/-- An action that is given the exception being handled, none being `Traceback.empty`. -/
def Handling (σ ε α : Type) : Type := Traceback ε → Action σ (Traceback ε) α

namespace Handling

variable {σ ε α β : Type}

instance : Monad (Handling σ ε) where
  pure value := fun _ => pure value
  bind first next := fun handled => first handled >>= fun value => next value handled

def raise (error : ε) : Handling σ ε α := fun handled =>
  Action.raise (.raised error .empty handled false)

def raiseFromNone (error : ε) : Handling σ ε α := fun handled =>
  Action.raise (.raised error .empty handled true)

/-- `raise`, of an exception caught -/
def reraise (caught : Traceback ε) : Handling σ ε α := fun _ => Action.raise caught

def lift (action : Action σ ε α) : Handling σ ε α := fun handled state =>
  match action state with
  | (.ok value, reached) => (.ok value, reached)
  | (.error error, reached) => (.error (.raised error .empty handled false), reached)

/-- `try: body except: handler`, the handler run while what it caught is being handled -/
def rescue (body : Handling σ ε α) (handler : Traceback ε → Handling σ ε α) :
    Handling σ ε α := fun handled =>
  Action.rescue (body handled) fun caught => handler caught caught

/-- `try: body finally: after`, where an error out of `after` takes the place of the body's,
which was being handled. -/
def ensuring (body : Handling σ ε α) (after : Handling σ ε Unit) : Handling σ ε α :=
  fun handled state =>
    match body handled state with
    | (.ok value, reached) => (after >>= fun _ => pure value) handled reached
    | (.error error, reached) => (after >>= fun _ => reraise error) error reached

/-- An action on a part of the state, which is kept back however it ends. -/
def within {τ : Type} (view : σ → τ) (keep : τ → σ → σ) (action : Handling τ ε α) :
    Handling σ ε α := fun handled state =>
  let (result, reached) := action handled (view state)
  (result, keep reached state)

theorem lift_of_ok {action : Action σ ε α} {state reached : σ} {value : α}
    (handled : Traceback ε) (run : action state = (.ok value, reached)) :
    lift action handled state = (.ok value, reached) := by
  rw [lift, run]

theorem lift_of_error {action : Action σ ε α} {state reached : σ} {error : ε}
    (handled : Traceback ε) (run : action state = (.error error, reached)) :
    lift action handled state = (.error (.raised error .empty handled false), reached) := by
  rw [lift, run]

theorem bind_of_ok {first : Handling σ ε α} (next : α → Handling σ ε β) {handled : Traceback ε}
    {state reached : σ} {value : α} (run : first handled state = (.ok value, reached)) :
    (first >>= next) handled state = next value handled reached :=
  Action.bind_of_ok _ run

theorem bind_of_error {first : Handling σ ε α} (next : α → Handling σ ε β)
    {handled error : Traceback ε} {state reached : σ}
    (run : first handled state = (.error error, reached)) :
    (first >>= next) handled state = (.error error, reached) :=
  Action.bind_of_error _ run

theorem rescue_of_ok {body : Handling σ ε α} (handler : Traceback ε → Handling σ ε α)
    {handled : Traceback ε} {state reached : σ} {value : α}
    (run : body handled state = (.ok value, reached)) :
    rescue body handler handled state = (.ok value, reached) := by
  rw [rescue, Action.rescue_apply, run]

theorem rescue_of_error {body : Handling σ ε α} (handler : Traceback ε → Handling σ ε α)
    {handled caught : Traceback ε} {state reached : σ}
    (run : body handled state = (.error caught, reached)) :
    rescue body handler handled state = handler caught caught reached := by
  rw [rescue, Action.rescue_apply, run]

theorem ensuring_of_ok {body : Handling σ ε α} (after : Handling σ ε Unit)
    {handled : Traceback ε} {state reached : σ} {value : α}
    (run : body handled state = (.ok value, reached)) :
    ensuring body after handled state = (after >>= fun _ => pure value) handled reached := by
  rw [ensuring, run]

theorem ensuring_of_error {body : Handling σ ε α} (after : Handling σ ε Unit)
    {handled error : Traceback ε} {state reached : σ}
    (run : body handled state = (.error error, reached)) :
    ensuring body after handled state = (after >>= fun _ => reraise error) error reached := by
  rw [ensuring, run]

/-! ## What is left of an action when its tracebacks are forgotten -/

/-- The action does what the plain one does, and raises what the plain one raises with a
traceback related to it and to what was being handled. -/
def Records (records : Traceback ε → ε → Traceback ε → Prop) (action : Handling σ ε α)
    (plain : Action σ ε α) : Prop :=
  ∀ handled state,
    (∀ value reached, plain state = (.ok value, reached) →
      action handled state = (.ok value, reached)) ∧
    ∀ error reached, plain state = (.error error, reached) →
      ∃ traceback, action handled state = (.error traceback, reached) ∧
        records handled error traceback

variable {records : Traceback ε → ε → Traceback ε → Prop}

theorem Records.pure (value : α) :
    Records records (pure value : Handling σ ε α) (pure value) := by
  intro handled state
  constructor
  · intro other reached run
    cases run
    rfl
  · intro error reached run
    cases run

theorem Records.raise {error : ε} {action : Handling σ ε α}
    (raises : ∀ handled state, ∃ traceback, action handled state = (.error traceback, state) ∧
      records handled error traceback) :
    Records records action (Action.raise error) := by
  intro handled state
  constructor
  · intro value reached run
    cases run
  · intro other reached run
    cases run
    exact raises handled state

theorem Records.lift {plain : Action σ ε α}
    (raises : ∀ state error reached, plain state = (.error error, reached) →
      ∀ handled, records handled error (.raised error .empty handled false)) :
    Records records (lift plain) plain := fun handled state =>
  ⟨fun _ _ run => lift_of_ok handled run,
    fun error reached run => ⟨_, lift_of_error handled run, raises state error reached run handled⟩⟩

theorem Records.bind {first : Handling σ ε α} {plain : Action σ ε α}
    {next : α → Handling σ ε β} {plainNext : α → Action σ ε β} (one : Records records first plain)
    (others : ∀ value, Records records (next value) (plainNext value)) :
    Records records (first >>= next) (plain >>= plainNext) := by
  intro handled state
  constructor
  · intro result final run
    obtain ⟨value, reached, ran, later⟩ := Action.bind_ok_iff.mp run
    rw [bind_of_ok _ ((one handled state).1 value reached ran)]
    exact (others value handled reached).1 result final later
  · intro error final run
    rcases Action.bind_error_iff.mp run with raised | ⟨value, reached, ran, later⟩
    · obtain ⟨traceback, raises, recorded⟩ := (one handled state).2 error final raised
      exact ⟨traceback, bind_of_error _ raises, recorded⟩
    · rw [bind_of_ok _ ((one handled state).1 value reached ran)]
      exact (others value handled reached).2 error final later

theorem Records.ensuring {body : Handling σ ε α} {plain : Action σ ε α}
    (recorded : Records records body plain) (after : σ → σ) :
    Records records (ensuring body (Handling.lift (Action.update after)))
      (Action.ensuring plain after) := by
  intro handled state
  rw [Action.ensuring_apply]
  constructor
  · intro value final run
    obtain ⟨ran, rfl⟩ := Prod.mk.inj run
    have body := (recorded handled state).1 value _ (Prod.ext ran rfl)
    rw [ensuring_of_ok _ body]
    rfl
  · intro error final run
    obtain ⟨ran, rfl⟩ := Prod.mk.inj run
    obtain ⟨traceback, body, kept⟩ := (recorded handled state).2 error _ (Prod.ext ran rfl)
    refine ⟨traceback, ?_, kept⟩
    rw [ensuring_of_error _ body]
    rfl

end Handling

end BitcoinNodeTests.Foundation
