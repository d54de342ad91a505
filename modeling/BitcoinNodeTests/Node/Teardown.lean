import BitcoinNodeTests.Foundation.Traceback
import BitcoinNodeTests.Node.Held

/-!
# Stopping every node of a test

`stop_all` stops the adapters of a test one inside the `finally` of another, so that what
a stop raises is kept in the tracebacks of the errors raised after it.  The stop here is
`NodeAdapter.stop` with the exceptions handled while it runs: `stop_records` says that it
does what `stop` does, and what the tracebacks of its errors report.
-/

set_option autoImplicit false

namespace BitcoinNodeTests.Teardown

open Foundation Handling

section Stop

variable {ω : Type} (host : Host ω)

def wait (process : Nat) (timeout : Int) : Handling (Machine ω) NodeRaised Int := do
  let exitCode ← lift (BitcoinNodeTests.wait host process timeout)
  match exitCode with
  | some code => pure code
  | none => raise .timeoutExpired

def killed (running : Running) (timeout : Int) :
    Handling (Machine ω) NodeRaised (Int × Bool) := do
  lift (sendSignal host running.process .kill)
  lift (waitKilled host running.process timeout)
  let stderr ← lift (readOutput host running.stderrPath 0)
  raiseFromNone (.timeoutError (s!"node process ignored terminate for {seconds timeout}s " ++
    s!"and was killed -- stderr: {stderr}") none)

def terminate (running : Running) : Handling (Machine ω) NodeRaised (Int × Bool) := do
  let already ← lift (poll host running.process)
  lift (sendSignal host running.process .terminate)
  let timeout ← lift (scaled host STARTUP_TIMEOUT)
  rescue
    (do
      let exitCode ← wait host running.process timeout
      pure (exitCode, already.isSome))
    (fun caught =>
      if caught.error = some .timeoutExpired then killed host running timeout else reraise caught)

def stop : Handling (Machine ω) NodeRaised Unit := do
  let running ← lift (Action.read Machine.running)
  match running with
  | none => lift (Action.update (closeSessions host))
  | some held => do
      lift (hold none)
      let (exitCode, alreadyExited) ←
        ensuring (terminate host held) (lift (Action.update (closeSessions host)))
      lift (refuseCode host held.stderrPath exitCode alreadyExited)

end Stop

/-! ## What a stop raises -/

/-- The process ignored its termination and was killed. -/
def wasKilled : NodeRaised → Bool
  | .timeoutError _ _ => true
  | _ => false

def exitedBadly : NodeRaised → Bool
  | .runtimeError _ _ => true
  | _ => false

/-- What a printer reports of an error raised where `before` is reported of what is handled. -/
def reportedAfter (before : List NodeRaised) (error : NodeRaised) : List NodeRaised :=
  if wasKilled error then [error] else error :: before

def StopRecords (handled : Traceback NodeRaised) (error : NodeRaised)
    (traceback : Traceback NodeRaised) : Prop :=
  wasKilled error ∨ exitedBadly error →
    traceback.reported = reportedAfter handled.reported error

section Records

variable {ω : Type} {host : Host ω}

/-- An action that raises neither of the two errors of a stop. -/
def RaisesOther {α : Type} (action : NodeAction ω α) : Prop :=
  ∀ machine error reached, action machine = (.error error, reached) →
    ¬ (wasKilled error ∨ exitedBadly error)

theorem RaisesOther.records {α : Type} {action : NodeAction ω α} (other : RaisesOther action) :
    Records StopRecords (lift action) action :=
  Records.lift fun machine error reached run _ ofStop =>
    absurd ofStop (other machine error reached run)

theorem raisesOther_of_ok {α : Type} {action : NodeAction ω α}
    (returns : ∀ machine, ∃ value reached, action machine = (.ok value, reached)) :
    RaisesOther action := by
  intro machine error reached run
  obtain ⟨value, other, ran⟩ := returns machine
  rw [ran] at run
  cases run

theorem readOutput_raisesOther (path : String) (offset : Nat) :
    RaisesOther (readOutput host path offset) := by
  intro machine error reached run
  obtain ⟨failure, rfl⟩ := readOutput_error run
  simp [wasKilled, exitedBadly]

theorem waitKilled_raisesOther (process : Nat) (timeout : Int) :
    RaisesOther (waitKilled host process timeout) := by
  intro machine error reached run
  rcases Action.bind_error_iff.mp run with waited | ⟨exitCode, between, -, run⟩
  · cases waited
  · split at run
    · cases run
    · cases run
      simp [wasKilled, exitedBadly]

/-- The error of a killed process is raised from none, so only it is reported. -/
def KilledRecords (_handled : Traceback NodeRaised) (error : NodeRaised)
    (traceback : Traceback NodeRaised) : Prop :=
  wasKilled error ∨ exitedBadly error → wasKilled error ∧ traceback.reported = [error]

theorem RaisesOther.killedRecords {α : Type} {action : NodeAction ω α}
    (other : RaisesOther action) : Records KilledRecords (lift action) action :=
  Records.lift fun machine error reached run _ ofStop =>
    absurd ofStop (other machine error reached run)

variable (host) in
def plainKilled (running : Running) (timeout : Int) : NodeAction ω (Int × Bool) := do
  sendSignal host running.process .kill
  waitKilled host running.process timeout
  let stderr ← readOutput host running.stderrPath 0
  Action.raise (.timeoutError (s!"node process ignored terminate for {seconds timeout}s " ++
    s!"and was killed -- stderr: {stderr}") none)

theorem killed_records (running : Running) (timeout : Int) :
    Records KilledRecords (killed host running timeout) (plainKilled host running timeout) := by
  have signalled : RaisesOther (sendSignal host running.process .kill) :=
    raisesOther_of_ok fun machine => ⟨_, _, sendSignal_run _ _ machine⟩
  refine Records.bind signalled.killedRecords fun _ => ?_
  refine Records.bind (waitKilled_raisesOther _ _).killedRecords fun _ => ?_
  refine Records.bind (readOutput_raisesOther _ _).killedRecords fun stderr => ?_
  exact Records.raise fun handled machine => ⟨_, rfl, fun _ => ⟨rfl, rfl⟩⟩

/-- The wait within `_terminate`, and what follows it where it expires. -/
theorem awaited_records (running : Running) (timeout : Int) (already : Bool) :
    Records StopRecords
      (rescue
        (do
          let exitCode ← wait host running.process timeout
          pure (exitCode, already))
        (fun caught =>
          if caught.error = some .timeoutExpired then killed host running timeout
          else reraise caught))
      (do
        let exitCode ← BitcoinNodeTests.wait host running.process timeout
        match exitCode with
        | some code => pure (code, already)
        | none => plainKilled host running timeout) := by
  intro handled machine
  have waits : BitcoinNodeTests.wait host running.process timeout machine =
      (.ok ((machine.elapsed host timeout).exitCode running.process),
        machine.elapsed host timeout) := rfl
  have chained := lift_of_ok handled waits
  cases exited : (machine.elapsed host timeout).exitCode running.process with
  | some code =>
      rw [exited] at waits chained
      rw [Action.bind_of_ok _ waits]
      have waited : wait host running.process timeout handled machine =
          (.ok code, machine.elapsed host timeout) := bind_of_ok _ chained
      have body : (wait host running.process timeout >>= fun exitCode => pure (exitCode, already))
          handled machine = (.ok (code, already), machine.elapsed host timeout) :=
        bind_of_ok _ waited
      rw [rescue_of_ok _ body]
      refine ⟨?_, ?_⟩
      · intro value reached run
        cases run
        rfl
      · intro error reached run
        cases run
  | none =>
      rw [exited] at waits chained
      rw [Action.bind_of_ok _ waits]
      have waited : wait host running.process timeout handled machine =
          (.error (.raised .timeoutExpired .empty handled false), machine.elapsed host timeout) :=
        bind_of_ok _ chained
      have body : (wait host running.process timeout >>= fun exitCode => pure (exitCode, already))
          handled machine = (.error (.raised .timeoutExpired .empty handled false),
            machine.elapsed host timeout) := bind_of_error _ waited
      have expired : (Traceback.raised NodeRaised.timeoutExpired .empty handled false).error =
          some .timeoutExpired := rfl
      rw [rescue_of_error _ body, if_pos expired]
      obtain ⟨returns, raises⟩ := @killed_records _ host running timeout
        (.raised .timeoutExpired .empty handled false) (machine.elapsed host timeout)
      refine ⟨returns, fun error reached run => ?_⟩
      obtain ⟨traceback, raised, recorded⟩ := raises error reached run
      refine ⟨traceback, raised, fun ofStop => ?_⟩
      obtain ⟨killed, only⟩ := recorded ofStop
      rw [only, reportedAfter, if_pos killed]

theorem terminate_records (running : Running) :
    Records StopRecords (terminate host running) (BitcoinNodeTests.terminate host running) := by
  have polled : RaisesOther (poll host running.process) :=
    raisesOther_of_ok fun machine => ⟨_, _, rfl⟩
  have signalled : RaisesOther (sendSignal host running.process .terminate) :=
    raisesOther_of_ok fun machine => ⟨_, _, sendSignal_run _ _ machine⟩
  have bounded : RaisesOther (scaled host STARTUP_TIMEOUT) :=
    raisesOther_of_ok fun machine => ⟨_, _, rfl⟩
  refine Records.bind polled.records fun already => ?_
  refine Records.bind signalled.records fun _ => ?_
  refine Records.bind bounded.records fun timeout => ?_
  exact awaited_records running timeout already.isSome

theorem refuseCode_records (stderrPath : String) (exitCode : Int) (alreadyExited : Bool) :
    Records StopRecords (lift (refuseCode host stderrPath exitCode alreadyExited))
      (refuseCode host stderrPath exitCode alreadyExited) := by
  apply Records.lift
  intro machine error reached run handled ofStop
  rw [refuseCode] at run
  split at run
  · rcases Action.bind_error_iff.mp run with unread | ⟨stderr, between, -, raises⟩
    · exact absurd ofStop (readOutput_raisesOther _ _ _ _ _ unread)
    · cases raises
      rfl
  · cases run

/-- What `stop` does, and what is reported of what it raises. -/
theorem stop_records :
    Records StopRecords (stop host) (BitcoinNodeTests.stop host) := by
  have read : RaisesOther (Action.read Machine.running : NodeAction ω (Option Running)) :=
    raisesOther_of_ok fun machine => ⟨_, _, rfl⟩
  have closed : RaisesOther (Action.update (closeSessions host)) :=
    raisesOther_of_ok fun machine => ⟨_, _, rfl⟩
  have forgotten : RaisesOther (hold none : NodeAction ω Unit) :=
    raisesOther_of_ok fun machine => ⟨_, _, rfl⟩
  refine Records.bind read.records fun running => ?_
  cases running with
  | none => exact closed.records
  | some held =>
      refine Records.bind forgotten.records fun _ => ?_
      refine Records.bind ((terminate_records held).ensuring _) fun ended => ?_
      exact refuseCode_records held.stderrPath ended.1 ended.2

end Records

/-! ## `stop_all` -/

/-- An adapter among others: its machine is a part of the state, which a stop may change in
any other way as well. -/
structure Started (σ ω : Type) where
  host : Host ω
  machine : σ → Machine ω
  keep : Machine ω → σ → σ

section StopAll

variable {σ ω : Type}

/-- The stop of an adapter, noted in the list of the adapters stopped so far. -/
def Started.stop (adapter : Started σ ω) :
    Handling (σ × List (Started σ ω)) NodeRaised Unit :=
  within (fun state => adapter.machine state.1)
    (fun machine state => (adapter.keep machine state.1, state.2 ++ [adapter]))
    (Teardown.stop adapter.host)

def stopEach : List (Started σ ω) → Handling (σ × List (Started σ ω)) NodeRaised Unit
  | [] => pure ()
  | last :: earlier => ensuring last.stop (stopEach earlier)

def stopAll (adapters : List (Started σ ω)) :
    Handling (σ × List (Started σ ω)) NodeRaised Unit := stopEach adapters.reverse

end StopAll

end BitcoinNodeTests.Teardown
