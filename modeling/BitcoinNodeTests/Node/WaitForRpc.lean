import BitcoinNodeTests.Node.Process

/-!
# Waiting for a node's RPC

`_wait_for_rpc` polls the node until it answers, exits, answers an error that waiting
cannot resolve, or runs out of time.  The loop is given as many turns as the time can
hold, each of which sleeps a tenth of a second: `pollUntil_turns` says that it never
needs more.
-/

set_option autoImplicit false

namespace BitcoinNodeTests

open Foundation

def IN_WARMUP : Int := -28

/-- The digits of a number of milliseconds as Python prints the float of its seconds. -/
def seconds (millis : Int) : String :=
  let fraction := ((s!"{millis.natAbs % 1000 + 1000}".toList.drop 1).reverse.dropWhile (· = '0')).reverse
  (if millis < 0 then "-" else "") ++ s!"{millis.natAbs / 1000}." ++
    (if fraction = [] then "0" else String.ofList fraction)

structure RpcWait where
  process : Nat
  stderrPath : String
  timeout : Int
  logPath : Option String
  logOffset : Nat
  logOnExit : Bool

/-- `last_error` and `ignored`, a count for each type in the order they came. -/
structure Ignored where
  lastError : Option Failure
  counts : List (String × Nat)

def countUp (typeName : String) : List (String × Nat) → List (String × Nat)
  | [] => [(typeName, 1)]
  | (name, count) :: rest =>
      if name = typeName then (name, count + 1) :: rest else (name, count) :: countUp typeName rest

def Ignored.note (failure : Failure) (ignored : Ignored) : Ignored :=
  ⟨some failure, countUp failure.typeName ignored.counts⟩

def Ignored.printed (ignored : Ignored) : String :=
  "\x7b" ++ ", ".intercalate (ignored.counts.map fun (name, count) => s!"'{name}': {count}") ++
    "\x7d"

def Ignored.latest (ignored : Ignored) : String :=
  match ignored.lastError with
  | none => ""
  | some failure => s!", latest: {failure.repr}"

section Wait

variable {ω : Type} (host : Host ω)

def readOutput (path : String) (offset : Nat) : NodeAction ω String :=
  attempt (host.readOutput path offset)

def logSince (logPath : Option String) (logOffset : Nat) : NodeAction ω String :=
  match logPath with
  | none => pure ""
  | some path => do
      let output ← readOutput host path logOffset
      pure s!"\n-- {path} since this start:\n{output}"

def refuseExit (rpcWait : RpcWait) : Option Int → NodeAction ω Unit
  | none => pure ()
  | some exitCode => do
      let stderr ← readOutput host rpcWait.stderrPath 0
      let log ← logSince host (if rpcWait.logOnExit then rpcWait.logPath else none) rpcWait.logOffset
      Action.raise (.runtimeError (s!"node process exited with {exitCode} before its RPC " ++
        s!"answered -- stderr: {stderr}" ++ log) none)

/-- What an answer decides: `none` is the RPC up, a failure one to wait out. -/
def judge : Except Failure Unit → NodeAction ω (Option Failure)
  | .ok () => pure none
  | .error failure =>
      match failure.kind with
      | .rpcError code =>
          if code ≠ IN_WARMUP then
            Action.raise (.runtimeError s!"node answered its RPC with an error: {failure.text}" failure)
          else pure (some failure)
      | .httpError status =>
          if status = 401 ∨ status = 403 then
            Action.raise (.runtimeError s!"node refused its RPC: {failure.text}" failure)
          else pure (some failure)
      | .exception => pure (some failure)
      | .baseException => Action.raise (.failed failure)

/-- One turn of the loop, up to its sleep. -/
def pollTurn (rpcWait : RpcWait) : NodeAction ω (Option Failure) := do
  let exitCode ← poll host rpcWait.process
  refuseExit host rpcWait exitCode
  elapse host 0
  let answer ← observe host.getBlockchainInfo
  judge answer

def giveUp (rpcWait : RpcWait) (ignored : Ignored) : NodeAction ω Unit := do
  let stderr ← readOutput host rpcWait.stderrPath 0
  let log ← logSince host rpcWait.logPath rpcWait.logOffset
  Action.raise (.timeoutError (s!"node did not answer its RPC within {seconds rpcWait.timeout} s " ++
    s!"(ignored errors: {ignored.printed}{ignored.latest}) -- stderr: {stderr}" ++ log)
    ignored.lastError)

def pollUntil (rpcWait : RpcWait) (deadline : Int) : Nat → Ignored → NodeAction ω Unit
  | 0, ignored => giveUp host rpcWait ignored
  | turns + 1, ignored => do
      let now ← monotonic host
      if now < deadline then
        let outcome ← pollTurn host rpcWait
        match outcome with
        | none => pure ()
        | some failure => do
            sleep host 100
            pollUntil rpcWait deadline turns (ignored.note failure)
      else giveUp host rpcWait ignored

def waitForRpc (rpcWait : RpcWait) : NodeAction ω Unit := do
  let now ← monotonic host
  pollUntil host rpcWait (now + rpcWait.timeout) ((rpcWait.timeout / 100).toNat + 2) ⟨none, []⟩

end Wait

section Turns

variable {ω : Type} {host : Host ω}

theorem readOutput_elapses (path : String) (offset : Nat) :
    Action.Moves Elapses (readOutput host path offset) := attempt_elapses _

theorem logSince_elapses (logPath : Option String) (logOffset : Nat) :
    Action.Moves Elapses (logSince host logPath logOffset) := by
  cases logPath with
  | none => exact pure_elapses _
  | some path => exact Action.Moves.bind (readOutput_elapses path logOffset) fun _ => pure_elapses _

theorem refuseExit_elapses (rpcWait : RpcWait) (exitCode : Option Int) :
    Action.Moves Elapses (refuseExit host rpcWait exitCode) := by
  cases exitCode with
  | none => exact pure_elapses _
  | some code =>
      apply Action.Moves.bind (readOutput_elapses _ _)
      intro stderr
      exact Action.Moves.bind (logSince_elapses _ _) fun _ => raise_elapses _

theorem judge_same (answer : Except Failure Unit) (machine : Machine ω) :
    (judge answer machine).2 = machine := by
  rcases answer with ⟨kind, typeName, text, repr⟩ | ⟨⟩
  · cases kind with
    | rpcError code =>
        by_cases warm : code ≠ IN_WARMUP
        · simp [judge, warm]
        · simp [judge, warm]
    | httpError status =>
        by_cases refused : status = 401 ∨ status = 403
        · simp [judge, refused]
        · simp [judge, refused]
    | exception => rfl
    | baseException => rfl
  · rfl

theorem pollTurn_elapses (rpcWait : RpcWait) : Action.Moves Elapses (pollTurn host rpcWait) := by
  apply Action.Moves.bind (poll_elapses _)
  intro exitCode
  apply Action.Moves.bind (refuseExit_elapses _ _)
  intro _
  apply Action.Moves.bind (elapse_elapses 0)
  intro _
  apply Action.Moves.bind (observe_elapses _)
  intro answer
  exact Action.Moves.unchanged (judge_same answer)

theorem giveUp_elapses (rpcWait : RpcWait) (ignored : Ignored) :
    Action.Moves Elapses (giveUp host rpcWait ignored) := by
  apply Action.Moves.bind (readOutput_elapses _ _)
  intro stderr
  exact Action.Moves.bind (logSince_elapses _ _) fun _ => raise_elapses _

theorem pollUntil_elapses (rpcWait : RpcWait) (deadline : Int) (turns : Nat) :
    ∀ ignored, Action.Moves Elapses (pollUntil host rpcWait deadline turns ignored) := by
  induction turns with
  | zero => exact fun ignored => giveUp_elapses rpcWait ignored
  | succ turns ih =>
      intro ignored
      apply Action.Moves.bind monotonic_elapses
      intro now
      by_cases early : now < deadline
      · rw [if_pos early]
        apply Action.Moves.bind (pollTurn_elapses rpcWait)
        intro outcome
        cases outcome with
        | none => exact pure_elapses _
        | some failure => exact Action.Moves.bind (sleep_elapses 100) fun _ => ih _
      · rw [if_neg early]
        exact giveUp_elapses rpcWait ignored

theorem waitForRpc_elapses (rpcWait : RpcWait) :
    Action.Moves Elapses (waitForRpc host rpcWait) :=
  Action.Moves.bind monotonic_elapses fun _ => pollUntil_elapses _ _ _ _

/-- Where `turns` sleeps of a tenth of a second reach the deadline, the loop ends within
one turn more, whatever number it is given. -/
theorem pollUntil_turns (rpcWait : RpcWait) (deadline : Int) (turns extra : Nat) :
    ∀ ignored (machine : Machine ω), deadline ≤ machine.now + 100 * turns →
      pollUntil host rpcWait deadline (turns + 1 + extra) ignored machine =
        pollUntil host rpcWait deadline (turns + 1) ignored machine := by
  induction turns with
  | zero =>
      intro ignored machine reached
      have later := (@elapse_elapses ω host 0 machine).now
      have late : ¬ (machine.elapsed host 0).now < deadline := by
        simp only [elapse, Action.update_apply] at later
        omega
      have ended : ∀ more, pollUntil host rpcWait deadline (more + 1) ignored machine =
          giveUp host rpcWait ignored (machine.elapsed host 0) := by
        intro more
        rw [pollUntil, Action.bind_of_ok _ (show monotonic host machine = _ from rfl), if_neg late]
      rw [Nat.zero_add, Nat.add_comm 1 extra, ended extra]
      exact (ended 0).symm
  | succ turns ih =>
      intro ignored machine reached
      have later := (@elapse_elapses ω host 0 machine).now
      simp only [elapse, Action.update_apply] at later
      have more : turns + 1 + 1 + extra = (turns + 1 + extra) + 1 := by omega
      rw [more, pollUntil, pollUntil,
        Action.bind_of_ok _ (show monotonic host machine = _ from rfl),
        Action.bind_of_ok _ (show monotonic host machine = _ from rfl)]
      by_cases early : (machine.elapsed host 0).now < deadline
      · rw [if_pos early, if_pos early, Action.bind_apply, Action.bind_apply]
        have turned := (@pollTurn_elapses ω host rpcWait (machine.elapsed host 0)).now
        rcases run : pollTurn host rpcWait (machine.elapsed host 0) with ⟨error | outcome, middle⟩
        · rfl
        · rw [run] at turned
          have afterTurn : (machine.elapsed host 0).now ≤ middle.now := turned
          cases outcome with
          | none => rfl
          | some failure =>
              have slept := (@elapse_elapses ω host 100 middle).now
              simp only [elapse, Action.update_apply] at slept
              apply ih
              show deadline ≤ (middle.elapsed host 100).now + 100 + 100 * (turns : Int)
              push_cast at reached
              omega
      · rw [if_neg early, if_neg early]

end Turns

end BitcoinNodeTests
