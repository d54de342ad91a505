import Mathlib.Data.List.Sort
import Mathlib.Data.String.Basic
import BitcoinNodeTests.Node.Options
import BitcoinNodeTests.Node.WaitForRpc

/-!
# Starting, stopping and restarting a node

The calls of a `NodeAdapter` that touch its process, and what every run of them keeps:
a process alive is the one held, and a start, a stop or a restart that raises leaves
none alive, unless it was refused before it did anything.
-/

set_option autoImplicit false

namespace BitcoinNodeTests

open Foundation

def STARTUP_TIMEOUT : Int := 30000
def STDERR_DIR : String := "stderr"
def CLEAN_EXIT : Int := 0

structure NodeAdapter where
  command : List String
  extraArgs : List String
  checked : checkExtraArgs command extraArgs = none
  datadir : String
  logPath : Option String
  discardsStdout : Bool

def NodeAdapter.init (className : String) (chains : List String) (chain : String)
    (command extraArgs : List String) (datadir : String) (logPath : Option String)
    (discardsStdout : Bool) : Except NodeRaised NodeAdapter :=
  if chain ∈ chains then
    match checked : checkExtraArgs command extraArgs with
    | none => .ok ⟨command, extraArgs, checked, datadir, logPath, discardsStdout⟩
    | some text => .error (.valueError text)
  else
    let sorted := ", ".intercalate ((chains.insertionSort (· ≤ ·)).map fun name => s!"'{name}'")
    .error (.valueError (s!"{className} cannot start a node on chain '{chain}': " ++
      s!"its chains are [{sorted}]"))

section Calls

variable {ω : Type} (host : Host ω) (adapter : NodeAdapter)

def closeSessions (machine : Machine ω) : Machine ω :=
  { machine with world := host.closeSessions machine.world }

def hold (running : Option Running) : NodeAction ω Unit :=
  Action.update fun machine => { machine with running := running }

def logSize : NodeAction ω Nat :=
  match adapter.logPath with
  | none => pure 0
  | some logPath => attempt (host.size logPath)

/-- What `_start` reads and opens before it spawns: the size of the log and the file the
process's stderr goes to. -/
def openStderr : NodeAction ω (Nat × String) := do
  let stderrDir := s!"{adapter.datadir}/{STDERR_DIR}"
  attempt (host.makeDirectory stderrDir)
  let logOffset ← logSize host adapter
  let stderrPath ← attempt (host.temporaryFile stderrDir)
  pure (logOffset, stderrPath)

def awaitStarted (process : Nat) (stderrPath : String) (logOffset : Nat) : NodeAction ω Unit := do
  attempt host.rpcClient
  let timeout ← scaled host STARTUP_TIMEOUT
  waitForRpc host
    ⟨process, stderrPath, timeout, adapter.logPath, logOffset, adapter.discardsStdout⟩

def killAndWait (process : Nat) : NodeAction ω Unit :=
  Action.ensuring
    (do
      sendSignal host process .kill
      let timeout ← scaled host STARTUP_TIMEOUT
      waitKilled host process timeout)
    (closeSessions host)

def abandonStart (process : Nat) (error : NodeRaised) : NodeAction ω Unit := do
  hold none
  killAndWait host process
  Action.raise error

def startWith (extraArgs : List String) : NodeAction ω Unit := do
  let (logOffset, stderrPath) ← openStderr host adapter
  let process ← popen host (adapter.command ++ extraArgs)
  hold (some ⟨process, stderrPath⟩)
  Action.rescue (awaitStarted host adapter process stderrPath logOffset)
    (abandonStart host process)

def start : NodeAction ω Unit := do
  let running ← Action.read Machine.running
  match running with
  | some _ =>
      Action.raise (.runtimeError "node already started: stop it before starting it again" none)
  | none => startWith host adapter adapter.extraArgs

def terminate (running : Running) : NodeAction ω (Int × Bool) := do
  let already ← poll host running.process
  sendSignal host running.process .terminate
  let timeout ← scaled host STARTUP_TIMEOUT
  let exitCode ← wait host running.process timeout
  match exitCode with
  | some code => pure (code, already.isSome)
  | none => do
      sendSignal host running.process .kill
      waitKilled host running.process timeout
      let stderr ← readOutput host running.stderrPath 0
      Action.raise (.timeoutError (s!"node process ignored terminate for {seconds timeout}s " ++
        s!"and was killed -- stderr: {stderr}") none)

def refuseCode (stderrPath : String) (exitCode : Int) (alreadyExited : Bool) :
    NodeAction ω Unit :=
  if exitCode ≠ CLEAN_EXIT then do
    let stderr ← readOutput host stderrPath 0
    let moment := if alreadyExited then "before stop was called" else "on terminate"
    Action.raise (.runtimeError
      s!"node process exited with {exitCode} {moment} -- stderr: {stderr}" none)
  else pure ()

def stop : NodeAction ω Unit := do
  let running ← Action.read Machine.running
  match running with
  | none => Action.update (closeSessions host)
  | some held => do
      hold none
      let (exitCode, alreadyExited) ← Action.ensuring (terminate host held) (closeSessions host)
      refuseCode host held.stderrPath exitCode alreadyExited

def waitTimedOut (held : Running) (timeout : Int) : NodeAction ω (Int × String) := do
  let stderr ← readOutput host held.stderrPath 0
  Action.raise (.timeoutError
    s!"node process did not exit within {seconds timeout} s -- stderr: {stderr}" none)

def letGo (held : Running) (exitCode : Int) : NodeAction ω (Int × String) := do
  Action.update (closeSessions host)
  let stderr ← readOutput host held.stderrPath 0
  pure (exitCode, stderr)

def waitUntilStopped (timeout : Int) : NodeAction ω (Int × String) := do
  let running ← Action.read Machine.running
  match running with
  | none => Action.raise (.runtimeError "no node process to wait for: start it first" none)
  | some held => do
      let timeout ← scaled host timeout
      let exitCode ← wait host held.process timeout
      match exitCode with
      | none => waitTimedOut host held timeout
      | some code => do
          hold none
          letGo host held code

def restartArgs : Option (List String) → Except NodeRaised (List String)
  | none => .ok adapter.extraArgs
  | some extraArgs =>
      match checkExtraArgs adapter.command extraArgs with
      | some text => .error (.valueError text)
      | none => .ok extraArgs

def restart (extraArgs : Option (List String)) : NodeAction ω Unit := do
  match restartArgs adapter extraArgs with
  | .error error => Action.raise error
  | .ok args => do
      stop host
      startWith host adapter args

end Calls

end BitcoinNodeTests
