import BitcoinNodeTests.Foundation.Action

/-!
# The processes of an adapter

Every process an adapter spawned, by number, beside the one it holds and the world they
run in.  The world decides what an operation answers and which processes exit while it
lasts; nothing but that ends a process, a signal reaching it through the world alone.
-/

set_option autoImplicit false

namespace BitcoinNodeTests

open Foundation

inductive FailureKind where
  | rpcError (code : Int)
  | httpError (status : Int)
  | exception
  | baseException
  deriving DecidableEq, Repr

/-- An exception out of an RPC client or the operating system: its kind, the name of its
type, and what `str` and `repr` make of it. -/
structure Failure where
  kind : FailureKind
  typeName : String
  text : String
  repr : String
  deriving DecidableEq, Repr

/-- What a call raises, with the exception it is raised from where there is one: `failed` lets
an exception through as it came. -/
inductive NodeRaised where
  | valueError (text : String)
  | runtimeError (text : String) (cause : Option Failure)
  | timeoutError (text : String) (cause : Option Failure)
  | timeoutExpired
  | failed (failure : Failure)
  deriving DecidableEq, Repr

/-- A process, alive until it has an exit code. -/
structure Process where
  argv : List String
  exitCode : Option Int
  deriving DecidableEq, Repr

structure Running where
  process : Nat
  stderrPath : String
  deriving DecidableEq, Repr

structure Machine (ω : Type) where
  running : Option Running
  processes : List Process
  now : Int
  world : ω

inductive Signal where
  | terminate
  | kill
  deriving DecidableEq, Repr

/-- What happens while an operation lasts: how long it takes, in milliseconds, and the
code each process exits with that does. -/
structure Meanwhile where
  millis : Nat
  exits : Nat → Option Int

/-- The operating system and the node's RPC, over the states `ω` of the world.
`meanwhile` takes how long an operation waits at most, `readOutput` gives what a file
holds past an offset, decoded and stripped, and nothing where there is none. -/
structure Host (ω : Type) where
  meanwhile : Int → ω → Meanwhile × ω
  signal : Nat → Signal → ω → ω
  makeDirectory : String → ω → Except Failure Unit × ω
  size : String → ω → Except Failure Nat × ω
  temporaryFile : String → ω → Except Failure String × ω
  popen : List String → ω → Except Failure Unit × ω
  rpcClient : ω → Except Failure Unit × ω
  getBlockchainInfo : ω → Except Failure Unit × ω
  readOutput : String → Nat → ω → Except Failure String × ω
  scaled : Int → ω → Int
  closeSessions : ω → ω

def Process.after (exits : Option Int) (process : Process) : Process :=
  match process.exitCode with
  | some _ => process
  | none => { process with exitCode := exits }

namespace Machine

variable {ω : Type}

def exitCode (process : Nat) (machine : Machine ω) : Option Int :=
  machine.processes[process]?.bind Process.exitCode

def Alive (process : Nat) (machine : Machine ω) : Prop :=
  ∃ spawned, machine.processes[process]? = some spawned ∧ spawned.exitCode = none

def argvs (machine : Machine ω) : List (List String) := machine.processes.map Process.argv

def elapsed (host : Host ω) (bound : Int) (machine : Machine ω) : Machine ω :=
  let (meanwhile, world) := host.meanwhile bound machine.world
  { machine with
    processes := machine.processes.mapIdx fun process spawned =>
      spawned.after (meanwhile.exits process)
    now := machine.now + meanwhile.millis
    world := world }

end Machine

section Operations

variable {ω : Type} (host : Host ω)

abbrev NodeAction (ω α : Type) : Type := Action (Machine ω) NodeRaised α

def elapse (bound : Int) : NodeAction ω Unit := Action.update (Machine.elapsed host bound)

def attempt {α : Type} (operation : ω → Except Failure α × ω) : NodeAction ω α := fun machine =>
  match operation machine.world with
  | (.ok value, world) => (.ok value, { machine with world := world })
  | (.error failure, world) => (.error (.failed failure), { machine with world := world })

def observe {α : Type} (operation : ω → Except Failure α × ω) :
    NodeAction ω (Except Failure α) := fun machine =>
  let (answer, world) := operation machine.world
  (.ok answer, { machine with world := world })

def monotonic : NodeAction ω Int := do
  elapse host 0
  Action.read Machine.now

def sleep (millis : Nat) : NodeAction ω Unit := do
  elapse host millis
  Action.update fun machine => { machine with now := machine.now + millis }

def poll (process : Nat) : NodeAction ω (Option Int) := do
  elapse host 0
  Action.read (Machine.exitCode process)

/-- `Popen.wait`, `none` where it raises `TimeoutExpired` -/
def wait (process : Nat) (timeout : Int) : NodeAction ω (Option Int) := do
  elapse host timeout
  Action.read (Machine.exitCode process)

/-- `Popen.terminate` and `Popen.kill`: no signal is sent to a process that has exited. -/
def sendSignal (process : Nat) (signal : Signal) : NodeAction ω Unit := do
  let exitCode ← poll host process
  Action.update fun machine =>
    if exitCode.isSome then machine
    else { machine with world := host.signal process signal machine.world }

def popen (argv : List String) : NodeAction ω Nat := do
  attempt (host.popen argv)
  let process ← Action.read fun machine => machine.processes.length
  Action.update fun machine => { machine with processes := machine.processes ++ [⟨argv, none⟩] }
  pure process

def scaled (timeout : Int) : NodeAction ω Int :=
  Action.read fun machine => host.scaled timeout machine.world

/-- A process waited for after its `kill`, which `TimeoutExpired` ends where it has not exited. -/
def waitKilled (process : Nat) (timeout : Int) : NodeAction ω Unit := do
  let exitCode ← wait host process timeout
  if exitCode.isSome then pure () else Action.raise .timeoutExpired

end Operations

/-- A killed process exits within the wait after the kill. -/
def KillEnds {ω : Type} (host : Host ω) : Prop :=
  ∀ process timeout world,
    ((host.meanwhile timeout (host.signal process .kill world)).1.exits process).isSome

/-! ## What an operation leaves of the processes -/

/-- No process was spawned, none came back to life, the one held is the same, and the
clock did not go back. -/
structure Elapses {ω : Type} (before after : Machine ω) : Prop where
  now : before.now ≤ after.now
  running : after.running = before.running
  argvs : after.argvs = before.argvs
  alive : ∀ process, after.Alive process → before.Alive process

section Elapses

variable {ω α : Type} {host : Host ω}

instance : IsPreorder (Machine ω) Elapses where
  refl _ := ⟨Int.le_refl _, rfl, rfl, fun _ alive => alive⟩
  trans _ _ _ first second :=
    ⟨Int.le_trans first.now second.now, second.running.trans first.running,
      second.argvs.trans first.argvs,
      fun process alive => first.alive process (second.alive process alive)⟩

theorem Process.after_argv (exits : Option Int) (process : Process) :
    (process.after exits).argv = process.argv := by
  unfold Process.after
  cases process.exitCode with
  | none => rfl
  | some code => rfl

theorem Process.exitCode_of_after {exits : Option Int} {process : Process}
    (alive : (process.after exits).exitCode = none) : process.exitCode = none := by
  unfold Process.after at alive
  cases code : process.exitCode with
  | none => rfl
  | some value =>
      rw [code] at alive
      exact absurd (alive.symm.trans code) (by simp)

theorem Machine.elapsed_argvs (bound : Int) (machine : Machine ω) :
    (machine.elapsed host bound).argvs = machine.argvs := by
  apply List.ext_getElem?
  intro process
  simp only [argvs, elapsed, List.getElem?_map, List.getElem?_mapIdx, Option.map_map]
  cases machine.processes[process]? with
  | none => rfl
  | some spawned => exact congrArg some (spawned.after_argv _)

theorem elapse_elapses (bound : Int) : Action.Moves Elapses (elapse host bound) := by
  intro machine
  refine ⟨?_, rfl, machine.elapsed_argvs bound, ?_⟩
  · show machine.now ≤ machine.now + (host.meanwhile bound machine.world).1.millis
    omega
  · rintro process ⟨spawned, found, alive⟩
    simp only [elapse, Action.update_apply, Machine.elapsed, List.getElem?_mapIdx,
      Option.map_eq_some_iff] at found
    obtain ⟨earlier, found, rfl⟩ := found
    exact ⟨earlier, found, Process.exitCode_of_after alive⟩

theorem elapses_of_same {before after : Machine ω} (now : before.now ≤ after.now)
    (running : after.running = before.running) (processes : after.processes = before.processes) :
    Elapses before after := by
  refine ⟨now, running, congrArg (List.map Process.argv) processes, ?_⟩
  rintro process ⟨spawned, found, alive⟩
  exact ⟨spawned, processes ▸ found, alive⟩

theorem read_elapses (view : Machine ω → α) :
    Action.Moves Elapses (Action.read view : NodeAction ω α) := Action.Moves.unchanged fun _ => rfl

theorem pure_elapses (value : α) : Action.Moves Elapses (pure value : NodeAction ω α) :=
  Action.Moves.unchanged fun _ => rfl

theorem raise_elapses (error : NodeRaised) :
    Action.Moves Elapses (Action.raise error : NodeAction ω α) :=
  Action.Moves.unchanged fun _ => rfl

theorem attempt_elapses (operation : ω → Except Failure α × ω) :
    Action.Moves Elapses (attempt operation) := by
  intro machine
  rw [attempt]
  rcases operation machine.world with ⟨failure | value, world⟩
  · exact elapses_of_same (Int.le_refl _) rfl rfl
  · exact elapses_of_same (Int.le_refl _) rfl rfl

theorem observe_elapses (operation : ω → Except Failure α × ω) :
    Action.Moves Elapses (observe operation) := fun _ => elapses_of_same (Int.le_refl _) rfl rfl

theorem monotonic_elapses : Action.Moves Elapses (monotonic host) :=
  Action.Moves.bind (elapse_elapses 0) fun _ => read_elapses _

theorem sleep_elapses (millis : Nat) : Action.Moves Elapses (sleep host millis) :=
  Action.Moves.bind (elapse_elapses _) fun _ machine =>
    elapses_of_same (show machine.now ≤ machine.now + millis by omega) rfl rfl

theorem poll_elapses (process : Nat) : Action.Moves Elapses (poll host process) :=
  Action.Moves.bind (elapse_elapses 0) fun _ => read_elapses _

theorem wait_elapses (process : Nat) (timeout : Int) :
    Action.Moves Elapses (wait host process timeout) :=
  Action.Moves.bind (elapse_elapses timeout) fun _ => read_elapses _

theorem sendSignal_elapses (process : Nat) (signal : Signal) :
    Action.Moves Elapses (sendSignal host process signal) := by
  apply Action.Moves.bind (poll_elapses process)
  intro exitCode machine
  by_cases exited : exitCode.isSome
  · simp only [Action.update_apply, exited]
    exact elapses_of_same (Int.le_refl _) rfl rfl
  · simp only [Action.update_apply, exited]
    exact elapses_of_same (Int.le_refl _) rfl rfl

theorem waitKilled_elapses (process : Nat) (timeout : Int) :
    Action.Moves Elapses (waitKilled host process timeout) := by
  apply Action.Moves.bind (wait_elapses process timeout)
  intro exitCode
  by_cases exited : exitCode.isSome
  · rw [if_pos exited]
    exact pure_elapses ()
  · rw [if_neg exited]
    exact raise_elapses _

end Elapses

/-! ## What ends a process -/

section Ended

variable {ω : Type} {host : Host ω}

theorem not_alive_of_exitCode {process : Nat} {machine : Machine ω} {code : Int}
    (exited : machine.exitCode process = some code) : ¬ machine.Alive process := by
  rintro ⟨spawned, found, alive⟩
  simp [Machine.exitCode, found, alive] at exited

theorem wait_ok {process : Nat} {timeout : Int} {machine after : Machine ω} {code : Int}
    (waited : wait host process timeout machine = (.ok (some code), after)) :
    ¬ after.Alive process := by
  rw [wait, elapse, Action.update_bind, Action.read_apply] at waited
  obtain ⟨exited, rfl⟩ := Prod.mk.inj waited
  exact not_alive_of_exitCode (Except.ok.inj exited)

theorem waitKilled_leaves (process : Nat) (timeout : Int) (machine : Machine ω) :
    (waitKilled host process timeout machine).2 = machine.elapsed host timeout := by
  rw [waitKilled, wait, elapse, Action.bind_apply, Action.update_bind, Action.read_apply]
  cases exited : (machine.elapsed host timeout).exitCode process with
  | none => rfl
  | some code => rfl

theorem elapsed_of_exits {process : Nat} {timeout : Int} {machine : Machine ω}
    (exits : ((host.meanwhile timeout machine.world).1.exits process).isSome) :
    ¬ (machine.elapsed host timeout).Alive process := by
  rintro ⟨spawned, found, alive⟩
  simp only [Machine.elapsed, List.getElem?_mapIdx, Option.map_eq_some_iff] at found
  obtain ⟨earlier, -, rfl⟩ := found
  have stillAlive := Process.exitCode_of_after alive
  simp only [Process.after, stillAlive] at alive
  simp [alive] at exits

theorem sendSignal_run (process : Nat) (signal : Signal) (machine : Machine ω) :
    sendSignal host process signal machine =
      (.ok (), if ((machine.elapsed host 0).exitCode process).isSome then machine.elapsed host 0
        else { machine.elapsed host 0 with
          world := host.signal process signal (machine.elapsed host 0).world }) := rfl

/-- Whether or not it had exited before, a killed process is not alive after the wait. -/
theorem killed_not_alive (killEnds : KillEnds host) (process : Nat) (timeout : Int)
    (machine : Machine ω) {after : Machine ω}
    (killed : sendSignal host process .kill machine = (.ok (), after)) :
    ¬ (after.elapsed host timeout).Alive process := by
  rw [sendSignal_run] at killed
  obtain ⟨-, rfl⟩ := Prod.mk.inj killed
  cases exited : (machine.elapsed host 0).exitCode process with
  | some code =>
      intro alive
      exact not_alive_of_exitCode exited ((elapse_elapses timeout _).alive process alive)
  | none => exact elapsed_of_exits (killEnds process timeout _)

end Ended

end BitcoinNodeTests
