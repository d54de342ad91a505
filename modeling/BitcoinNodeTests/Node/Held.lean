import BitcoinNodeTests.Node.Adapter

/-!
# A live process is the one held

What each call of an adapter leaves of its processes, from what its parts do, and from
these the invariant of every run.
-/

set_option autoImplicit false

namespace BitcoinNodeTests

open Foundation

namespace Machine

variable {ω : Type}

def HoldsLive (machine : Machine ω) : Prop :=
  ∀ process, machine.Alive process → ∃ stderrPath, machine.running = some ⟨process, stderrPath⟩

def NoneAlive (machine : Machine ω) : Prop := ∀ process, ¬ machine.Alive process

theorem NoneAlive.holdsLive {machine : Machine ω} (noneAlive : machine.NoneAlive) :
    machine.HoldsLive := fun process alive => absurd alive (noneAlive process)

theorem NoneAlive.elapses {before after : Machine ω} (noneAlive : before.NoneAlive)
    (elapses : Elapses before after) : after.NoneAlive :=
  fun process alive => noneAlive process (elapses.alive process alive)

theorem HoldsLive.elapses {before after : Machine ω} (holds : before.HoldsLive)
    (elapses : Elapses before after) : after.HoldsLive := by
  intro process alive
  rw [elapses.running]
  exact holds process (elapses.alive process alive)

theorem HoldsLive.noneAlive {machine : Machine ω} (holds : machine.HoldsLive)
    (unheld : machine.running = none) : machine.NoneAlive := by
  intro process alive
  obtain ⟨stderrPath, held⟩ := holds process alive
  rw [unheld] at held
  cases held

end Machine

section Ending

variable {ω : Type} {host : Host ω} {adapter : NodeAdapter}

open Machine

theorem closeSessions_elapses (machine : Machine ω) : Elapses machine (closeSessions host machine) :=
  elapses_of_same (Int.le_refl _) rfl rfl

theorem scaled_elapses (timeout : Int) : Action.Moves Elapses (scaled host timeout) :=
  read_elapses _

theorem afterKill_elapses (held : Running) (timeout : Int) :
    Action.Moves Elapses (do
      let stderr ← readOutput host held.stderrPath 0
      Action.raise (.timeoutError (s!"node process ignored terminate for {seconds timeout}s " ++
        s!"and was killed -- stderr: {stderr}") none) : NodeAction ω (Int × Bool)) :=
  Action.Moves.bind (readOutput_elapses _ _) fun _ => raise_elapses _

theorem terminate_elapses (held : Running) : Action.Moves Elapses (terminate host held) := by
  apply Action.Moves.bind (poll_elapses _)
  intro already
  apply Action.Moves.bind (sendSignal_elapses _ _)
  intro _
  apply Action.Moves.bind (scaled_elapses _)
  intro timeout
  apply Action.Moves.bind (wait_elapses _ _)
  intro exitCode
  cases exitCode with
  | some code => exact pure_elapses _
  | none =>
      apply Action.Moves.bind (sendSignal_elapses _ _)
      intro _
      exact Action.Moves.bind (waitKilled_elapses _ _) fun _ => afterKill_elapses held timeout

/-- A process the kill was sent to is not alive after the wait, nor after what follows. -/
theorem killed_then_not_alive {α : Type} (killEnds : KillEnds host) (process : Nat)
    (timeout : Int) {next : Unit → NodeAction ω α} (nextElapses : ∀ value, Action.Moves Elapses (next value))
    (machine : Machine ω) :
    ¬ ((sendSignal host process .kill >>= fun _ => waitKilled host process timeout >>= next)
      machine).2.Alive process := by
  rcases killed : sendSignal host process .kill machine with ⟨error | ⟨⟩, reached⟩
  · cases killed
  · rw [Action.bind_of_ok _ killed]
    have elapses := Action.Moves.from_bind (waitKilled host process timeout) nextElapses reached
    rw [waitKilled_leaves] at elapses
    intro alive
    exact killed_not_alive killEnds process timeout machine killed (elapses.alive process alive)

theorem terminate_not_alive (killEnds : KillEnds host) (held : Running) (machine : Machine ω) :
    ¬ (terminate host held machine).2.Alive held.process := by
  rw [terminate, Action.bind_of_ok _ (show poll host held.process machine = _ from rfl)]
  rcases sent : sendSignal host held.process .terminate (machine.elapsed host 0) with
    ⟨error | ⟨⟩, signalled⟩
  · cases sent
  rw [Action.bind_of_ok _ sent, scaled, Action.read_bind]
  generalize host.scaled STARTUP_TIMEOUT signalled.world = timeout
  rcases waited : wait host held.process timeout signalled with ⟨error | exitCode, reached⟩
  · cases waited
  rw [Action.bind_of_ok _ waited]
  cases exitCode with
  | some code => exact wait_ok waited
  | none => exact killed_then_not_alive killEnds _ _ (fun _ => afterKill_elapses held timeout) _

theorem refuseCode_elapses (stderrPath : String) (exitCode : Int) (alreadyExited : Bool) :
    Action.Moves Elapses (refuseCode host stderrPath exitCode alreadyExited) := by
  unfold refuseCode
  by_cases unclean : exitCode ≠ CLEAN_EXIT
  · rw [if_pos unclean]
    exact Action.Moves.bind (readOutput_elapses _ _) fun _ => raise_elapses _
  · rw [if_neg unclean]
    exact pure_elapses _

/-- Whether it returns or raises, `stop` leaves nothing held and nothing alive. -/
theorem stop_leaves (killEnds : KillEnds host) {before : Machine ω} (holds : before.HoldsLive) :
    (stop host before).2.running = none ∧ (stop host before).2.argvs = before.argvs ∧
      (stop host before).2.NoneAlive := by
  rw [stop, Action.read_bind]
  cases running : before.running with
  | none => exact ⟨running, rfl, holds.noneAlive running⟩
  | some held =>
      have released : hold none before = (.ok (), { before with running := none }) := rfl
      show ((hold none >>= _) before).2.running = none ∧ _ ∧ _
      rw [Action.bind_of_ok _ released]
      have terminated := @terminate_elapses ω host held { before with running := none }
      have ended := terminate_not_alive killEnds held { before with running := none }
      have refused : ∀ exit : Int × Bool,
          Action.Moves Elapses (refuseCode host held.stderrPath exit.1 exit.2) :=
        fun exit => refuseCode_elapses _ _ _
      have elapses := Action.Moves.from_bind
        (Action.ensuring (terminate host held) (closeSessions host)) refused
        { before with running := none }
      refine ⟨elapses.running.trans terminated.running, elapses.argvs.trans terminated.argvs, ?_⟩
      intro process alive
      have aliveThen := elapses.alive process alive
      obtain ⟨stderrPath, isHeld⟩ := holds process (terminated.alive process aliveThen)
      rw [running] at isHeld
      cases isHeld
      exact ended aliveThen

/-! ## `_start` -/

theorem openStderr_elapses : Action.Moves Elapses (openStderr host adapter) := by
  apply Action.Moves.bind (attempt_elapses _)
  intro _
  apply Action.Moves.bind
  · unfold logSize
    cases adapter.logPath with
    | none => exact pure_elapses 0
    | some logPath => exact attempt_elapses _
  intro logOffset
  exact Action.Moves.bind (attempt_elapses _) fun _ => pure_elapses _

theorem awaitStarted_elapses (process : Nat) (stderrPath : String) (logOffset : Nat) :
    Action.Moves Elapses (awaitStarted host adapter process stderrPath logOffset) := by
  apply Action.Moves.bind (attempt_elapses _)
  intro _
  exact Action.Moves.bind (scaled_elapses _) fun _ => waitForRpc_elapses _

theorem killAndWait_elapses (process : Nat) :
    Action.Moves Elapses (killAndWait host process) := by
  apply Action.Moves.ensuring _ closeSessions_elapses
  apply Action.Moves.bind (sendSignal_elapses _ _)
  intro _
  exact Action.Moves.bind (scaled_elapses _) fun _ => waitKilled_elapses _ _

theorem killAndWait_not_alive (killEnds : KillEnds host) (process : Nat) (machine : Machine ω) :
    ¬ (killAndWait host process machine).2.Alive process := by
  rcases killed : sendSignal host process .kill machine with ⟨error | ⟨⟩, reached⟩
  · cases killed
  have ended := killed_not_alive killEnds process (host.scaled STARTUP_TIMEOUT reached.world)
    machine killed
  rw [← waitKilled_leaves process] at ended
  rw [killAndWait, Action.ensuring_apply, Action.bind_of_ok _ killed, scaled, Action.read_bind]
  intro alive
  exact ended ((closeSessions_elapses _).alive process alive)

/-- A start that raises after its process was spawned lets go of it, and it is not alive. -/
theorem abandonStart_leaves (killEnds : KillEnds host) (process : Nat) (error : NodeRaised)
    {machine after : Machine ω} {result : Except NodeRaised Unit}
    (run : abandonStart host process error machine = (result, after)) :
    result ≠ .ok () ∧ after.running = none ∧ after.argvs = machine.argvs ∧
      ∀ other, after.Alive other → machine.Alive other ∧ other ≠ process := by
  have released : hold none machine = (.ok (), { machine with running := none }) := rfl
  rw [abandonStart, Action.bind_of_ok _ released] at run
  have elapses := @killAndWait_elapses ω host process { machine with running := none }
  have ended := killAndWait_not_alive killEnds process { machine with running := none }
  have reached : (killAndWait host process { machine with running := none }).2 = after := by
    rw [Action.bind_apply] at run
    rcases killed : killAndWait host process { machine with running := none } with ⟨_ | _, _⟩
    · rw [killed] at run
      exact (Prod.mk.inj run).2
    · rw [killed] at run
      exact (Prod.mk.inj run).2
  rw [reached] at elapses ended
  refine ⟨?_, elapses.running, elapses.argvs, ?_⟩
  · rintro rfl
    obtain ⟨_, _, _, raised⟩ := Action.bind_ok_iff.mp run
    cases raised
  · intro other alive
    refine ⟨elapses.alive other alive, ?_⟩
    rintro rfl
    exact ended alive

theorem popen_error {argv : List String} {machine after : Machine ω} {error : NodeRaised}
    (refused : popen host argv machine = (.error error, after)) : Elapses machine after := by
  rcases Action.bind_error_iff.mp refused with attempted | ⟨_, _, _, rest⟩
  · have elapses := attempt_elapses (host.popen argv) machine
    rw [attempted] at elapses
    exact elapses
  · cases rest

theorem popen_ok {argv : List String} {machine after : Machine ω} {process : Nat}
    (spawned : popen host argv machine = (.ok process, after)) :
    after.running = machine.running ∧ after.argvs = machine.argvs ++ [argv] ∧
      ∀ other, after.Alive other → machine.Alive other ∨ other = process := by
  obtain ⟨_, reached, attempted, rest⟩ := Action.bind_ok_iff.mp spawned
  have same : reached.running = machine.running ∧ reached.processes = machine.processes := by
    rw [attempt] at attempted
    rcases answered : host.popen argv machine.world with ⟨failure | ⟨⟩, world⟩
    · rw [answered] at attempted
      cases attempted
    · rw [answered] at attempted
      cases attempted
      exact ⟨rfl, rfl⟩
  rw [Action.read_bind, Action.update_bind] at rest
  obtain ⟨isLast, rfl⟩ := Prod.mk.inj rest
  cases isLast
  refine ⟨same.1, ?_, ?_⟩
  · simp only [argvs, List.map_append, same.2]
    rfl
  · rintro other ⟨found, atOther, alive⟩
    by_cases earlier : other < reached.processes.length
    · rw [List.getElem?_append_left earlier, same.2] at atOther
      exact .inl ⟨found, atOther, alive⟩
    · obtain ⟨inRange, -⟩ := List.getElem?_eq_some_iff.mp atOther
      rw [List.length_append, List.length_singleton] at inRange
      right
      omega

/-- What `_start` leaves where nothing was held and nothing alive. -/
structure StartLeaves (adapter : NodeAdapter) (args : List String) (before : Machine ω)
    (result : Except NodeRaised Unit) (after : Machine ω) : Prop where
  argvs : after.argvs = before.argvs ∨ after.argvs = before.argvs ++ [adapter.command ++ args]
  holds : after.HoldsLive
  raised : result ≠ .ok () → after.running = none ∧ after.NoneAlive

theorem startLeaves_of_elapses {args : List String} {before after : Machine ω}
    (unheld : before.running = none) (noneAlive : before.NoneAlive)
    (elapses : Elapses before after) (error : NodeRaised) :
    StartLeaves adapter args before (.error error) after where
  argvs := .inl elapses.argvs
  holds := (noneAlive.elapses elapses).holdsLive
  raised _ := ⟨elapses.running.trans unheld, noneAlive.elapses elapses⟩

/-- From the spawn on: the process is the one held, or is not alive. -/
theorem rescued_leaves (killEnds : KillEnds host) {process : Nat} {stderrPath : String}
    {logOffset : Nat} {machine after : Machine ω} {result : Except NodeRaised Unit}
    (held : machine.running = some ⟨process, stderrPath⟩)
    (only : ∀ other, machine.Alive other → other = process)
    (run : Action.rescue (awaitStarted host adapter process stderrPath logOffset)
      (abandonStart host process) machine = (result, after)) :
    after.argvs = machine.argvs ∧ after.HoldsLive ∧
      (result ≠ .ok () → after.running = none ∧ after.NoneAlive) := by
  have awaited := @awaitStarted_elapses ω host adapter process stderrPath
    logOffset machine
  rw [Action.rescue_apply] at run
  rcases waitRun : awaitStarted host adapter process stderrPath logOffset machine with
    ⟨error | ⟨⟩, middle⟩
  · rw [waitRun] at run awaited
    obtain ⟨failed, released, sameArgvs, alive⟩ := abandonStart_leaves killEnds process error run
    have noneAlive : after.NoneAlive := by
      intro other stillAlive
      obtain ⟨aliveThen, different⟩ := alive other stillAlive
      exact different (only other (awaited.alive other aliveThen))
    exact ⟨sameArgvs.trans awaited.argvs, noneAlive.holdsLive, fun _ => ⟨released, noneAlive⟩⟩
  · rw [waitRun] at run awaited
    obtain ⟨rfl, rfl⟩ := Prod.mk.inj run
    refine ⟨awaited.argvs, ?_, fun failed => absurd rfl failed⟩
    intro other alive
    have isProcess := only other (awaited.alive other alive)
    subst isProcess
    exact ⟨stderrPath, awaited.running.trans held⟩

theorem startWith_leaves (killEnds : KillEnds host) {args : List String}
    {before after : Machine ω} {result : Except NodeRaised Unit}
    (unheld : before.running = none) (noneAlive : before.NoneAlive)
    (run : startWith host adapter args before = (result, after)) :
    StartLeaves adapter args before result after := by
  have opened := @openStderr_elapses ω host adapter before
  rw [startWith, Action.bind_apply] at run
  rcases openRun : openStderr host adapter before with ⟨error | ⟨logOffset, stderrPath⟩, middle⟩
  · rw [openRun] at run opened
    obtain ⟨rfl, rfl⟩ := Prod.mk.inj run
    exact startLeaves_of_elapses unheld noneAlive opened error
  rw [openRun] at run opened
  simp only [Action.bind_apply] at run
  rcases spawnRun : popen host (adapter.command ++ args) middle with ⟨error | process, spawned⟩
  · rw [spawnRun] at run
    obtain ⟨rfl, rfl⟩ := Prod.mk.inj run
    exact startLeaves_of_elapses unheld noneAlive
      (IsTrans.trans _ _ _ opened (popen_error spawnRun)) error
  rw [spawnRun] at run
  obtain ⟨stillUnheld, sameArgvs, alive⟩ := popen_ok spawnRun
  have only : ∀ other, spawned.Alive other → other = process := by
    intro other aliveNow
    rcases alive other aliveNow with aliveThen | isProcess
    · exact absurd (opened.alive other aliveThen) (noneAlive other)
    · exact isProcess
  have held : ({ spawned with running := some ⟨process, stderrPath⟩ } : Machine ω).running =
      some ⟨process, stderrPath⟩ := rfl
  obtain ⟨keptArgvs, holds, raised⟩ := rescued_leaves killEnds held only run
  refine ⟨.inr ?_, holds, raised⟩
  rw [keptArgvs, ← opened.argvs]
  exact sameArgvs

end Ending

/-! ## Runs -/

inductive NodeCall where
  | start
  | stop
  | restart (extraArgs : Option (List String))
  | waitUntilStopped (timeout : Int)

namespace NodeCall

variable {ω : Type}

def perform (host : Host ω) (adapter : NodeAdapter) : NodeCall → NodeAction ω Unit
  | .start => BitcoinNodeTests.start host adapter
  | .stop => BitcoinNodeTests.stop host
  | .restart extraArgs => BitcoinNodeTests.restart host adapter extraArgs
  | .waitUntilStopped timeout => do
      let _ ← BitcoinNodeTests.waitUntilStopped host timeout
      pure ()

/-- What the call raises before it does anything: `start` where a process is held, and
`restart` with arguments the adapter refuses. -/
def refusal (adapter : NodeAdapter) (call : NodeCall) (machine : Machine ω) : Option NodeRaised :=
  match call with
  | .start =>
      if machine.running.isSome then
        some (.runtimeError "node already started: stop it before starting it again" none)
      else none
  | .restart (some extraArgs) => (checkExtraArgs adapter.command extraArgs).map .valueError
  | _ => none

def extraArgs (adapter : NodeAdapter) : NodeCall → Option (List String)
  | .start => some adapter.extraArgs
  | .restart none => some adapter.extraArgs
  | .restart (some extraArgs) => some extraArgs
  | _ => none

def waits : NodeCall → Bool
  | .waitUntilStopped _ => true
  | _ => false

end NodeCall

/-- The machines of an adapter's runs: between the calls processes exit and the world
changes in any way. -/
inductive AdapterRun {ω : Type} (host : Host ω) (adapter : NodeAdapter) : Machine ω → Prop where
  | constructed (now : Int) (world : ω) : AdapterRun host adapter ⟨none, [], now, world⟩
  | called {machine : Machine ω} (call : NodeCall) (run : AdapterRun host adapter machine) :
      AdapterRun host adapter (call.perform host adapter machine).2
  | elapsed {machine later : Machine ω} (run : AdapterRun host adapter machine)
      (elapses : Elapses machine later) : AdapterRun host adapter later

/-- What a call leaves that was made of a machine whose live process is the one held. -/
structure CallLeaves {ω : Type} (adapter : NodeAdapter) (call : NodeCall) (before : Machine ω)
    (result : Except NodeRaised Unit) (after : Machine ω) : Prop where
  holds : after.HoldsLive
  refused : ∀ error, call.refusal adapter before = some error →
    result = .error error ∧ after = before
  raised : call.waits = false → call.refusal adapter before = none → result ≠ .ok () →
    after.running = none ∧ after.NoneAlive
  kept : ∀ timeout text cause, call = .waitUntilStopped timeout →
    result = .error (.timeoutError text cause) → after.running = before.running
  argvs : after.argvs = before.argvs ∨
    ∃ extraArgs, call.extraArgs adapter = some extraArgs ∧
      after.argvs = before.argvs ++ [adapter.command ++ extraArgs]

section Calls

variable {ω : Type} {host : Host ω} {adapter : NodeAdapter}

open Machine

theorem start_leaves (killEnds : KillEnds host) {before after : Machine ω}
    {result : Except NodeRaised Unit} (holds : before.HoldsLive)
    (run : NodeCall.start.perform host adapter before = (result, after)) :
    CallLeaves adapter .start before result after := by
  rw [NodeCall.perform, start, Action.read_bind] at run
  cases running : before.running with
  | some held =>
      rw [running] at run
      obtain ⟨rfl, rfl⟩ := Prod.mk.inj run
      refine ⟨holds, ?_, ?_, ?_, .inl rfl⟩
      · intro error refused
        simp only [NodeCall.refusal, running, Option.isSome_some, if_true,
          Option.some.injEq] at refused
        exact ⟨congrArg _ refused, rfl⟩
      · intro _ unrefused
        simp [NodeCall.refusal, running] at unrefused
      · intro _ _ _ impossible
        cases impossible
  | none =>
      rw [running] at run
      have leaves := startWith_leaves killEnds running (holds.noneAlive running) run
      refine ⟨leaves.holds, ?_, fun _ _ => leaves.raised, ?_, ?_⟩
      · intro error refused
        simp [NodeCall.refusal, running] at refused
      · intro _ _ _ impossible
        cases impossible
      · exact leaves.argvs.imp_right fun spawned => ⟨adapter.extraArgs, rfl, spawned⟩

theorem stop_call_leaves (killEnds : KillEnds host) {before after : Machine ω}
    {result : Except NodeRaised Unit} (holds : before.HoldsLive)
    (run : NodeCall.stop.perform host adapter before = (result, after)) :
    CallLeaves adapter .stop before result after := by
  obtain ⟨unheld, sameArgvs, noneAlive⟩ := stop_leaves killEnds holds
  rw [NodeCall.perform] at run
  rw [run] at unheld sameArgvs noneAlive
  refine ⟨noneAlive.holdsLive, ?_, fun _ _ _ => ⟨unheld, noneAlive⟩, ?_, .inl sameArgvs⟩
  · intro error refused
    cases refused
  · intro _ _ _ impossible
    cases impossible

/-- A restart that was not refused: nothing is alive once it stopped, and then it starts. -/
theorem restarted_leaves (killEnds : KillEnds host) {args : List String}
    {before after : Machine ω} {result : Except NodeRaised Unit} (holds : before.HoldsLive)
    (run : (stop host >>= fun _ => startWith host adapter args) before = (result, after)) :
    StartLeaves adapter args before result after := by
  obtain ⟨unheld, sameArgvs, noneAlive⟩ := stop_leaves killEnds holds
  rw [Action.bind_apply] at run
  rcases stopped : stop host before with ⟨error | ⟨⟩, middle⟩
  · rw [stopped] at run unheld sameArgvs noneAlive
    obtain ⟨rfl, rfl⟩ := Prod.mk.inj run
    exact ⟨.inl sameArgvs, noneAlive.holdsLive, fun _ => ⟨unheld, noneAlive⟩⟩
  · rw [stopped] at run unheld sameArgvs noneAlive
    have leaves := startWith_leaves killEnds unheld noneAlive run
    exact ⟨sameArgvs ▸ leaves.argvs, leaves.holds, leaves.raised⟩

theorem restart_leaves (killEnds : KillEnds host) {extraArgs : Option (List String)}
    {before after : Machine ω} {result : Except NodeRaised Unit} (holds : before.HoldsLive)
    (run : (NodeCall.restart extraArgs).perform host adapter before = (result, after)) :
    CallLeaves adapter (.restart extraArgs) before result after := by
  rw [NodeCall.perform, restart] at run
  cases extraArgs with
  | none =>
      have leaves := restarted_leaves killEnds holds run
      refine ⟨leaves.holds, ?_, fun _ _ => leaves.raised, ?_, ?_⟩
      · intro error refused
        cases refused
      · intro _ _ _ impossible
        cases impossible
      · exact leaves.argvs.imp_right fun spawned => ⟨adapter.extraArgs, rfl, spawned⟩
  | some args =>
      rw [restartArgs] at run
      cases checked : checkExtraArgs adapter.command args with
      | some text =>
          rw [checked] at run
          obtain ⟨rfl, rfl⟩ := Prod.mk.inj run
          refine ⟨holds, ?_, ?_, ?_, .inl rfl⟩
          · intro error refused
            simp only [NodeCall.refusal, checked, Option.map_some, Option.some.injEq] at refused
            exact ⟨congrArg _ refused, rfl⟩
          · intro _ unrefused
            simp [NodeCall.refusal, checked] at unrefused
          · intro _ _ _ impossible
            cases impossible
      | none =>
          rw [checked] at run
          have leaves := restarted_leaves killEnds holds run
          refine ⟨leaves.holds, ?_, fun _ _ => leaves.raised, ?_, ?_⟩
          · intro error refused
            simp [NodeCall.refusal, checked] at refused
          · intro _ _ _ impossible
            cases impossible
          · exact leaves.argvs.imp_right fun spawned => ⟨args, rfl, spawned⟩

theorem readOutput_error {path : String} {offset : Nat} {machine after : Machine ω}
    {error : NodeRaised} (run : readOutput host path offset machine = (.error error, after)) :
    ∃ failure, error = .failed failure := by
  rw [readOutput, attempt] at run
  rcases answered : host.readOutput path offset machine.world with ⟨failure | output, world⟩
  · rw [answered] at run
    cases run
    exact ⟨failure, rfl⟩
  · rw [answered] at run
    cases run

theorem waitTimedOut_elapses (held : Running) (timeout : Int) :
    Action.Moves Elapses (waitTimedOut host held timeout) :=
  Action.Moves.bind (readOutput_elapses _ _) fun _ => raise_elapses _

theorem letGo_elapses (held : Running) (exitCode : Int) :
    Action.Moves Elapses (letGo host held exitCode) := by
  apply Action.Moves.bind
  · exact fun machine => closeSessions_elapses machine
  intro _
  exact Action.Moves.bind (readOutput_elapses _ _) fun _ => pure_elapses _

theorem letGo_error {held : Running} {exitCode : Int} {machine after : Machine ω}
    {error : NodeRaised} (run : letGo host held exitCode machine = (.error error, after)) :
    ∃ failure, error = .failed failure := by
  rw [letGo, Action.update_bind] at run
  rcases Action.bind_error_iff.mp run with unread | ⟨stderr, _, _, returned⟩
  · exact readOutput_error unread
  · cases returned

/-- A wait that times out keeps the process held; one that sees it exit lets go of it. -/
theorem waitUntilStopped_run {timeout : Int} {before after : Machine ω}
    {result : Except NodeRaised (Int × String)} (holds : before.HoldsLive)
    (run : waitUntilStopped host timeout before = (result, after)) :
    after.HoldsLive ∧ after.argvs = before.argvs ∧
      ∀ text cause, result = .error (.timeoutError text cause) → after.running = before.running := by
  rw [waitUntilStopped, Action.read_bind] at run
  cases running : before.running with
  | none =>
      rw [running] at run
      obtain ⟨rfl, rfl⟩ := Prod.mk.inj run
      exact ⟨holds, rfl, fun _ _ _ => running⟩
  | some held =>
      simp only [running, scaled, Action.read_bind] at run
      have waited := @wait_elapses ω host held.process
        (host.scaled timeout before.world) before
      rcases waitRun : wait host held.process (host.scaled timeout before.world) before with
        ⟨error | exitCode, middle⟩
      · cases waitRun
      rw [waitRun] at waited
      rw [Action.bind_of_ok _ waitRun] at run
      cases exitCode with
      | none =>
          have elapses := @waitTimedOut_elapses ω host held
            (host.scaled timeout before.world) middle
          rw [show waitTimedOut host held _ middle = (result, after) from run] at elapses
          have all := IsTrans.trans _ _ _ waited elapses
          exact ⟨holds.elapses all, all.argvs, fun _ _ _ => all.running.trans running⟩
      | some code =>
          have ended := wait_ok waitRun
          have noneAlive : middle.NoneAlive := by
            intro process alive
            obtain ⟨stderrPath, isHeld⟩ := holds process (waited.alive process alive)
            rw [running] at isHeld
            cases isHeld
            exact ended alive
          have elapses := @letGo_elapses ω host held code { middle with running := none }
          have letGo : (letGo host held code { middle with running := none }) = (result, after) := run
          rw [letGo] at elapses
          have stillNone : after.NoneAlive :=
            NoneAlive.elapses (show NoneAlive { middle with running := none } from noneAlive) elapses
          refine ⟨stillNone.holdsLive, elapses.argvs.trans waited.argvs, ?_⟩
          rintro text cause rfl
          obtain ⟨failure, impossible⟩ := letGo_error letGo
          cases impossible

theorem waitUntilStopped_leaves {timeout : Int} {before after : Machine ω}
    {result : Except NodeRaised Unit} (holds : before.HoldsLive)
    (run : (NodeCall.waitUntilStopped timeout).perform host adapter before = (result, after)) :
    CallLeaves adapter (.waitUntilStopped timeout) before result after := by
  rw [NodeCall.perform, Action.bind_apply] at run
  rcases waitRun : waitUntilStopped host timeout before with ⟨error | exit, middle⟩
  · rw [waitRun] at run
    obtain ⟨rfl, rfl⟩ := Prod.mk.inj run
    obtain ⟨stillHolds, sameArgvs, kept⟩ := waitUntilStopped_run holds waitRun
    refine ⟨stillHolds, ?_, ?_, ?_, .inl sameArgvs⟩
    · intro error refused
      cases refused
    · intro notWait
      cases notWait
    · intro _ text cause _ timedOut
      exact kept text cause (congrArg Except.error (Except.error.inj timedOut))
  · rw [waitRun] at run
    obtain ⟨rfl, rfl⟩ := Prod.mk.inj run
    obtain ⟨stillHolds, sameArgvs, -⟩ := waitUntilStopped_run holds waitRun
    refine ⟨stillHolds, ?_, ?_, ?_, .inl sameArgvs⟩
    · intro error refused
      cases refused
    · intro notWait
      cases notWait
    · intro _ _ _ _ returned
      cases returned

theorem perform_leaves (killEnds : KillEnds host) (call : NodeCall) {before after : Machine ω}
    {result : Except NodeRaised Unit} (holds : before.HoldsLive)
    (run : call.perform host adapter before = (result, after)) :
    CallLeaves adapter call before result after := by
  cases call with
  | start => exact start_leaves killEnds holds run
  | stop => exact stop_call_leaves killEnds holds run
  | restart extraArgs => exact restart_leaves killEnds holds run
  | waitUntilStopped timeout => exact waitUntilStopped_leaves holds run

theorem AdapterRun.holdsLive (killEnds : KillEnds host) {machine : Machine ω}
    (run : AdapterRun host adapter machine) : machine.HoldsLive := by
  induction run with
  | constructed now world =>
      rintro process ⟨spawned, found, -⟩
      cases found
  | called call run ih => exact (perform_leaves killEnds call ih rfl).holds
  | elapsed run elapses ih => exact ih.elapses elapses

/-- At every point of every run the only process alive is the one held, and each call
from there leaves what `CallLeaves` says. -/
theorem adapter_holds_live_process (killEnds : KillEnds host) {machine : Machine ω}
    (run : AdapterRun host adapter machine) :
    machine.HoldsLive ∧ ∀ call result after, call.perform host adapter machine = (result, after) →
      CallLeaves adapter call machine result after :=
  ⟨run.holdsLive killEnds, fun call _ _ performed =>
    perform_leaves killEnds call (run.holdsLive killEnds) performed⟩

end Calls

/-- A host whose node answers at once and ignores a termination: the world is the
processes killed. -/
def stubborn : Host (List Nat) where
  meanwhile _ killed := (⟨1, fun process => if process ∈ killed then some (-9) else none⟩, killed)
  signal process signal killed := if signal = .kill then process :: killed else killed
  makeDirectory _ killed := (.ok (), killed)
  size _ killed := (.ok 0, killed)
  temporaryFile directory killed := (.ok s!"{directory}/tmp", killed)
  popen _ killed := (.ok (), killed)
  rpcClient killed := (.ok (), killed)
  getBlockchainInfo killed := (.ok (), killed)
  readOutput _ _ killed := (.ok "", killed)
  scaled timeout _ := timeout
  closeSessions killed := killed

theorem stubborn_killEnds : KillEnds stubborn := by
  intro process timeout killed
  simp [stubborn]

def regtestAdapter : NodeAdapter where
  command := ["node", "-regtest"]
  extraArgs := ["-txindex"]
  checked := by decide
  datadir := "datadir"
  logPath := none
  discardsStdout := false

/-- Started, and restarted where the node ignores its termination: it is killed, the
restart raises, and nothing is spawned in its place. -/
def restarted : Machine (List Nat) :=
  ((NodeCall.restart (some ["-listen=0"])).perform stubborn regtestAdapter
    (NodeCall.start.perform stubborn regtestAdapter ⟨none, [], 0, []⟩).2).2

theorem adapter_holds_live_process_stubborn :
    restarted.HoldsLive ∧ ∀ call result after,
      call.perform stubborn regtestAdapter restarted = (result, after) →
        CallLeaves regtestAdapter call restarted result after :=
  adapter_holds_live_process stubborn_killEnds (.called _ (.called _ (.constructed 0 [])))

example : restarted.running = none ∧
    restarted.processes = [⟨["node", "-regtest", "-txindex"], some (-9)⟩] := by decide

end BitcoinNodeTests
