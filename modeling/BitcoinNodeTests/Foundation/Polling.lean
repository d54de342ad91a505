import Mathlib.Logic.Relation
import BitcoinNodeTests.Foundation.Action

/-!
# Polling until a deadline

A round is tried, and after a sleep tried again, for as long as the clock is before the
deadline.  `Polls` is the loop without a bound on its turns; `pollBefore` is given as many as
the time can hold, and `pollBefore_iff` says that they are enough.
-/

set_option autoImplicit false

namespace BitcoinNodeTests.Foundation

open Relation

/-- A clock, in milliseconds: `tick` is the state once it was read, `sleep` after a sleep. -/
structure Ticker (σ : Type) where
  now : σ → Int
  tick : σ → σ
  sleep : Nat → σ → σ

/-- The clock does not go back, and a sleep is no shorter than it was asked to be. -/
structure TickerLaws {σ : Type} (ticker : Ticker σ) : Prop where
  tick : ∀ state, ticker.now state ≤ ticker.now (ticker.tick state)
  sleep : ∀ millis state, ticker.now state + millis ≤ ticker.now (ticker.sleep millis state)

namespace Ticker

variable {σ ε α : Type} (ticker : Ticker σ)

def monotonic : Action σ ε Int := fun state =>
  (.ok (ticker.now (ticker.tick state)), ticker.tick state)

/-- `while time.monotonic() < deadline: round; time.sleep(0.1)`, with so many turns, where a
round answers what the loop returns or nothing. -/
def pollUntil (round : Action σ ε (Option α)) (timedOut : ε) (deadline : Int) :
    Nat → Action σ ε α
  | 0 => Action.raise timedOut
  | turns + 1 => do
      let now ← ticker.monotonic
      if now < deadline then
        let found ← round
        match found with
        | some value => pure value
        | none => do
            Action.update (ticker.sleep 100)
            pollUntil round timedOut deadline turns
      else Action.raise timedOut

/-- One turn more than the sleeps that fit before the deadline. -/
def turnsBefore (deadline : Int) (state : σ) : Nat :=
  ((deadline - ticker.now state) / 100).toNat + 2

def pollBefore (round : Action σ ε (Option α)) (timedOut : ε) (deadline : Int) : Action σ ε α :=
  fun state => ticker.pollUntil round timedOut deadline (ticker.turnsBefore deadline state) state

/-- A round begun before the deadline that found nothing, and the sleep after it. -/
def Missed (round : Action σ ε (Option α)) (deadline : Int) (state next : σ) : Prop :=
  ticker.now (ticker.tick state) < deadline ∧
    ∃ reached, round (ticker.tick state) = (.ok none, reached) ∧ next = ticker.sleep 100 reached

/-- How the loop ends from a state: late, or with what its last round answered or raised. -/
inductive Polls (round : Action σ ε (Option α)) (timedOut : ε) (deadline : Int) :
    σ → Except ε α × σ → Prop where
  | late {state : σ} (late : deadline ≤ ticker.now (ticker.tick state)) :
      Polls round timedOut deadline state (.error timedOut, ticker.tick state)
  | found {state reached : σ} {value : α} (early : ticker.now (ticker.tick state) < deadline)
      (finds : round (ticker.tick state) = (.ok (some value), reached)) :
      Polls round timedOut deadline state (.ok value, reached)
  | raised {state reached : σ} {error : ε} (early : ticker.now (ticker.tick state) < deadline)
      (raises : round (ticker.tick state) = (.error error, reached)) :
      Polls round timedOut deadline state (.error error, reached)
  | missed {state next : σ} {ending : Except ε α × σ}
      (missed : ticker.Missed round deadline state next)
      (rest : Polls round timedOut deadline next ending) :
      Polls round timedOut deadline state ending

end Ticker

section Loop

variable {σ ε α : Type} {ticker : Ticker σ} {round : Action σ ε (Option α)} {timedOut : ε}
  {deadline : Int}

theorem Ticker.pollUntil_succ (turns : Nat) (state : σ) :
    ticker.pollUntil round timedOut deadline (turns + 1) state =
      if ticker.now (ticker.tick state) < deadline then
        match round (ticker.tick state) with
        | (.ok (some value), reached) => (.ok value, reached)
        | (.ok none, reached) =>
            ticker.pollUntil round timedOut deadline turns (ticker.sleep 100 reached)
        | (.error error, reached) => (.error error, reached)
      else (.error timedOut, ticker.tick state) := by
  rw [Ticker.pollUntil, Action.bind_of_ok _ (show ticker.monotonic state = _ from rfl)]
  by_cases early : ticker.now (ticker.tick state) < deadline
  · rw [if_pos early, if_pos early, Action.bind_apply]
    rcases round (ticker.tick state) with ⟨error | found, reached⟩
    · rfl
    · cases found with
      | none => rfl
      | some value => rfl
  · rw [if_neg early, if_neg early]
    rfl

/-- Turns that reach the deadline with their sleeps alone are enough. -/
theorem Ticker.polls_pollUntil (laws : TickerLaws ticker)
    (goesOn : ∀ state, ticker.now state ≤ ticker.now (round state).2) (turns : Nat) :
    ∀ state, deadline ≤ ticker.now state + 100 * turns →
      ticker.Polls round timedOut deadline state
        (ticker.pollUntil round timedOut deadline (turns + 1) state) := by
  induction turns with
  | zero =>
      intro state reached
      have ticked := laws.tick state
      have late : ¬ ticker.now (ticker.tick state) < deadline := by
        push_cast at reached
        omega
      rw [pollUntil_succ, if_neg late]
      exact .late (Int.not_lt.mp late)
  | succ turns ih =>
      intro state reached
      have ticked := laws.tick state
      rw [pollUntil_succ]
      by_cases early : ticker.now (ticker.tick state) < deadline
      · rw [if_pos early]
        have moved := goesOn (ticker.tick state)
        rcases run : round (ticker.tick state) with ⟨error | found, middle⟩
        · exact .raised early run
        · cases found with
          | some value => exact .found early run
          | none =>
              rw [run] at moved
              have moved : ticker.now (ticker.tick state) ≤ ticker.now middle := moved
              have slept := laws.sleep 100 middle
              apply Ticker.Polls.missed ⟨early, middle, run, rfl⟩
              apply ih
              push_cast at reached
              omega
      · rw [if_neg early]
        exact .late (Int.not_lt.mp early)

theorem Ticker.polls_pollBefore (laws : TickerLaws ticker)
    (goesOn : ∀ state, ticker.now state ≤ ticker.now (round state).2) (state : σ) :
    ticker.Polls round timedOut deadline state
      (ticker.pollBefore round timedOut deadline state) := by
  apply polls_pollUntil laws goesOn
  omega

theorem Ticker.Polls.functional {state : σ} {first second : Except ε α × σ}
    (one : ticker.Polls round timedOut deadline state first)
    (other : ticker.Polls round timedOut deadline state second) : first = second := by
  induction one with
  | late late =>
      cases other with
      | late _ => rfl
      | found early _ => exact absurd early (Int.not_lt.mpr late)
      | raised early _ => exact absurd early (Int.not_lt.mpr late)
      | missed missed _ => exact absurd missed.1 (Int.not_lt.mpr late)
  | found early finds =>
      cases other with
      | late late => exact absurd early (Int.not_lt.mpr late)
      | found _ same => rw [finds] at same; cases same; rfl
      | raised _ same => rw [finds] at same; cases same
      | missed missed _ =>
          obtain ⟨_, _, same, _⟩ := missed
          rw [finds] at same
          cases same
  | raised early raises =>
      cases other with
      | late late => exact absurd early (Int.not_lt.mpr late)
      | found _ same => rw [raises] at same; cases same
      | raised _ same => rw [raises] at same; cases same; rfl
      | missed missed _ =>
          obtain ⟨_, _, same, _⟩ := missed
          rw [raises] at same
          cases same
  | missed missed _ ih =>
      obtain ⟨early, reached, misses, rfl⟩ := missed
      cases other with
      | late late => exact absurd early (Int.not_lt.mpr late)
      | found _ same => rw [misses] at same; cases same
      | raised _ same => rw [misses] at same; cases same
      | missed again rest =>
          obtain ⟨_, _, same, rfl⟩ := again
          rw [misses] at same
          cases same
          exact ih rest

theorem Ticker.pollBefore_iff (laws : TickerLaws ticker)
    (goesOn : ∀ state, ticker.now state ≤ ticker.now (round state).2) {state : σ}
    {ending : Except ε α × σ} :
    ticker.pollBefore round timedOut deadline state = ending ↔
      ticker.Polls round timedOut deadline state ending := by
  have polls : ticker.Polls round timedOut deadline state
      (ticker.pollBefore round timedOut deadline state) := polls_pollBefore laws goesOn state
  constructor
  · rintro rfl
    exact polls
  · exact fun other => polls.functional other

/-- The loop returns what the first round begun in time that finds anything found. -/
theorem Ticker.polls_ok_iff {state final : σ} {value : α} :
    ticker.Polls round timedOut deadline state (.ok value, final) ↔
      ∃ reached, ReflTransGen (ticker.Missed round deadline) state reached ∧
        ticker.now (ticker.tick reached) < deadline ∧
        round (ticker.tick reached) = (.ok (some value), final) := by
  constructor
  · intro polls
    generalize ended : (Except.ok value, final) = ending at polls
    induction polls with
    | late _ => cases ended
    | found early finds =>
        cases ended
        exact ⟨_, .refl, early, finds⟩
    | raised _ _ => cases ended
    | missed missed _ ih =>
        obtain ⟨reached, misses, early, finds⟩ := ih ended
        exact ⟨reached, .head missed misses, early, finds⟩
  · rintro ⟨reached, misses, early, finds⟩
    induction misses using ReflTransGen.head_induction_on with
    | refl => exact .found early finds
    | head missed _ ih => exact .missed missed ih

/-! ## What holds across a wait -/

section Moves

variable {relation : σ → σ → Prop} [IsPreorder σ relation]

theorem Ticker.missed_moves (ticks : ∀ state, relation state (ticker.tick state))
    (sleeps : ∀ state, relation state (ticker.sleep 100 state))
    (rounds : Action.Moves relation round) {state reached : σ}
    (misses : ReflTransGen (ticker.Missed round deadline) state reached) :
    relation state reached := by
  induction misses with
  | refl => exact Std.Refl.refl state
  | tail _ missed ih =>
      obtain ⟨-, middle, run, rfl⟩ := missed
      exact IsTrans.trans _ _ _ ih (IsTrans.trans _ _ _ (ticks _)
        (IsTrans.trans _ _ _ (rounds.of_run run) (sleeps middle)))

/-- A wait that returned, up to the round that ended it. -/
theorem Ticker.pollBefore_found (laws : TickerLaws ticker)
    (goesOn : ∀ state, ticker.now state ≤ ticker.now (round state).2)
    (ticks : ∀ state, relation state (ticker.tick state))
    (sleeps : ∀ state, relation state (ticker.sleep 100 state))
    (rounds : Action.Moves relation round) {state final : σ} {value : α}
    (run : ticker.pollBefore round timedOut deadline state = (.ok value, final)) :
    ∃ reached, relation state reached ∧ round reached = (.ok (some value), final) := by
  obtain ⟨reached, misses, -, found⟩ := polls_ok_iff.mp ((pollBefore_iff laws goesOn).mp run)
  exact ⟨ticker.tick reached,
    IsTrans.trans _ _ _ (missed_moves ticks sleeps rounds misses) (ticks reached), found⟩

end Moves

end Loop

/-! ## A condition that comes to hold -/

/-- Rounds in states of a kind, which take no longer than `period` with the sleep after them
and find something from `settled` on. -/
structure Settles {σ ε α : Type} (ticker : Ticker σ) (round : Action σ ε (Option α))
    (kind : σ → Prop) (settled period : Int) : Prop where
  answers : ∀ {state}, kind state → ∃ found reached,
    round (ticker.tick state) = (.ok found, reached) ∧
      kind (ticker.sleep 100 reached) ∧ kind reached ∧
      ticker.now reached ≤ ticker.now state + period ∧
      ticker.now (ticker.sleep 100 reached) ≤ ticker.now state + period ∧
      (settled ≤ ticker.now state → found.isSome)
  ticks : ∀ state, ticker.now (ticker.tick state) ≤ ticker.now state + period

section Settles

variable {σ ε α : Type} {ticker : Ticker σ} {round : Action σ ε (Option α)}
  {kind : σ → Prop} {settled period deadline : Int}

theorem Settles.polls {timedOut : ε} (settles : Settles ticker round kind settled period)
    (laws : TickerLaws ticker) (goesOn : ∀ state, ticker.now state ≤ ticker.now (round state).2)
    (turns : Nat) :
    ∀ state, kind state → settled ≤ ticker.now state + 100 * turns →
      ticker.now state + period < deadline → settled + 2 * period < deadline →
      ∃ value final, ticker.Polls round timedOut deadline state (.ok value, final) ∧
        kind final ∧ ticker.now state ≤ ticker.now final ∧
        ticker.now final ≤ max (ticker.now state) (settled + period) + period := by
  induction turns with
  | zero =>
      intro state isKind reached inTime _
      obtain ⟨found, middle, run, -, kept, quick, -, finds⟩ := settles.answers isKind
      obtain ⟨value, rfl⟩ := Option.isSome_iff_exists.mp (finds (by simpa using reached))
      have ticked := settles.ticks state
      have started := laws.tick state
      have moved : ticker.now (ticker.tick state) ≤ ticker.now middle := by
        have goes := goesOn (ticker.tick state)
        rwa [run] at goes
      exact ⟨value, middle, .found (by omega) run, kept, by omega, by omega⟩
  | succ turns ih =>
      intro state isKind reached inTime roomy
      obtain ⟨found, middle, run, slept, kept, quick, quickly, finds⟩ := settles.answers isKind
      have ticked := settles.ticks state
      have started := laws.tick state
      have moved : ticker.now (ticker.tick state) ≤ ticker.now middle := by
        have goes := goesOn (ticker.tick state)
        rwa [run] at goes
      cases found with
      | some value => exact ⟨value, middle, .found (by omega) run, kept, by omega, by omega⟩
      | none =>
          have early : ticker.now state < settled := by
            by_contra late
            cases finds (Int.not_lt.mp late)
          have sleeps := laws.sleep 100 middle
          push_cast at reached
          obtain ⟨value, final, polls, final_kind, after, bound⟩ :=
            ih (ticker.sleep 100 middle) slept (by omega) (by omega) roomy
          exact ⟨value, final, .missed ⟨by omega, middle, run, rfl⟩ polls, final_kind, by omega,
            by omega⟩

/-- A wait that has room for two rounds after the condition holds returns. -/
theorem Settles.returns (settles : Settles ticker round kind settled period)
    (laws : TickerLaws ticker) (goesOn : ∀ state, ticker.now state ≤ ticker.now (round state).2)
    (timedOut : ε) (deadline : Int) {state : σ} (isKind : kind state)
    (inTime : ticker.now state + period < deadline) (roomy : settled + 2 * period < deadline) :
    ∃ value final, ticker.pollBefore round timedOut deadline state = (.ok value, final) ∧
      kind final ∧ ticker.now state ≤ ticker.now final ∧
      ticker.now final ≤ max (ticker.now state) (settled + period) + period := by
  obtain ⟨value, final, polls, kept, bound⟩ : ∃ value final,
      ticker.Polls round timedOut deadline state (.ok value, final) ∧ kind final ∧
        ticker.now state ≤ ticker.now final ∧
        ticker.now final ≤ max (ticker.now state) (settled + period) + period :=
    settles.polls laws goesOn (settled - ticker.now state).toNat state isKind (by omega) inTime
      roomy
  exact ⟨value, final, (Ticker.pollBefore_iff laws goesOn).mpr polls, kept, bound⟩

end Settles

end BitcoinNodeTests.Foundation
