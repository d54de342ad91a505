import BitcoinNodeTests.Node.WaitForRpc

/-!
# What decides a wait for the RPC

A turn of `_wait_for_rpc` meets an exit of the process or an outcome of the RPC.  `Polls` is
the loop as the events it meets and the machine it stops at, and `conclude` what the call makes
of them: the first decisive event ends it, and without one it gives up at the deadline.
-/

set_option autoImplicit false

namespace BitcoinNodeTests

open Foundation

/-- What waiting can resolve. -/
def Failure.Transient (failure : Failure) : Prop :=
  match failure.kind with
  | .rpcError code => code = IN_WARMUP
  | .httpError status => status ≠ 401 ∧ status ≠ 403
  | .exception => True
  | .baseException => False

instance : DecidablePred Failure.Transient := fun failure =>
  match failure with
  | ⟨.rpcError code, _, _, _⟩ => inferInstanceAs (Decidable (code = IN_WARMUP))
  | ⟨.httpError status, _, _, _⟩ => inferInstanceAs (Decidable (status ≠ 401 ∧ status ≠ 403))
  | ⟨.exception, _, _, _⟩ => inferInstanceAs (Decidable True)
  | ⟨.baseException, _, _, _⟩ => inferInstanceAs (Decidable False)

inductive PollEvent where
  | exited (exitCode : Int)
  | answered
  | failed (failure : Failure)
  deriving DecidableEq

namespace PollEvent

def Decisive : PollEvent → Prop
  | exited _ => True
  | answered => True
  | failed failure => ¬ failure.Transient

instance : DecidablePred Decisive
  | exited _ => inferInstanceAs (Decidable True)
  | answered => inferInstanceAs (Decidable True)
  | failed failure => inferInstanceAs (Decidable (¬ failure.Transient))

/-- An exit, an RPC error of another code than the warm-up's, or a refusal. -/
def Refuses : PollEvent → Prop
  | exited _ => True
  | answered => False
  | failed failure => match failure.kind with
    | .rpcError code => code ≠ IN_WARMUP
    | .httpError status => status = 401 ∨ status = 403
    | .exception => False
    | .baseException => False

def failure? : PollEvent → Option Failure
  | failed failure => some failure
  | _ => none

def ofAnswer : Except Failure Unit → PollEvent
  | .ok () => answered
  | .error failure => failed failure

end PollEvent

def failuresOf (events : List PollEvent) : List Failure := events.filterMap PollEvent.failure?

def Ignored.noteAll (failures : List Failure) (ignored : Ignored) : Ignored :=
  failures.foldl (fun noted failure => noted.note failure) ignored

section Polls

variable {ω : Type} (host : Host ω) (rpcWait : RpcWait) (deadline : Int)

def compared (machine : Machine ω) : Machine ω := machine.elapsed host 0

def polled (machine : Machine ω) : Machine ω := (compared host machine).elapsed host 0

def called (machine : Machine ω) : Except Failure Unit × Machine ω :=
  let asked := (polled host machine).elapsed host 0
  let (answer, world) := host.getBlockchainInfo asked.world
  (answer, { asked with world := world })

def slept (machine : Machine ω) : Machine ω :=
  let after := machine.elapsed host 100
  { after with now := after.now + 100 }

/-- The loop from `machine` meets `events` and stops at `stopped`: at the deadline, or where
the last of them is decisive. -/
inductive Polls : Machine ω → List PollEvent → Machine ω → Prop where
  | late {machine : Machine ω} (late : deadline ≤ (compared host machine).now) :
      Polls machine [] (compared host machine)
  | exited {machine : Machine ω} {exitCode : Int} (early : (compared host machine).now < deadline)
      (exits : (polled host machine).exitCode rpcWait.process = some exitCode) :
      Polls machine [.exited exitCode] (polled host machine)
  | decided {machine : Machine ω} (early : (compared host machine).now < deadline)
      (alive : (polled host machine).exitCode rpcWait.process = none)
      (decisive : (PollEvent.ofAnswer (called host machine).1).Decisive) :
      Polls machine [.ofAnswer (called host machine).1] (called host machine).2
  | ignored {machine stopped : Machine ω} {failure : Failure} {events : List PollEvent}
      (early : (compared host machine).now < deadline)
      (alive : (polled host machine).exitCode rpcWait.process = none)
      (fails : (called host machine).1 = .error failure) (transient : failure.Transient)
      (rest : Polls (slept host (called host machine).2) events stopped) :
      Polls machine (.failed failure :: events) stopped

/-- What the call makes of the events, at the machine the loop stopped at. -/
def conclude (ignored : Ignored) : List PollEvent → NodeAction ω Unit
  | [] => giveUp host rpcWait ignored
  | .exited exitCode :: _ => refuseExit host rpcWait (some exitCode)
  | .answered :: _ => pure ()
  | .failed failure :: rest =>
      if failure.Transient then conclude (ignored.note failure) rest
      else do
        let _ ← judge (.error failure)
        pure ()

end Polls

/-! ## What each event makes of a turn -/

section Turn

variable {ω : Type} {host : Host ω} {rpcWait : RpcWait} {deadline : Int}

theorem judge_transient {failure : Failure} (transient : failure.Transient) (machine : Machine ω) :
    judge (.error failure) machine = (.ok (some failure), machine) := by
  obtain ⟨kind, typeName, text, repr⟩ := failure
  cases kind with
  | rpcError code =>
      have warming : code = IN_WARMUP := transient
      simp [judge, warming]
  | httpError status =>
      have served : status ≠ 401 ∧ status ≠ 403 := transient
      simp [judge, served]
  | exception => rfl
  | baseException => exact absurd transient id

/-- What waiting cannot resolve is raised: as a `RuntimeError` where it is an answer. -/
theorem judge_decisive {failure : Failure} (decisive : ¬ failure.Transient) (machine : Machine ω) :
    ∃ raised, judge (.error failure) machine = (.error raised, machine) ∧
      ((∃ text cause, raised = .runtimeError text cause) ↔ (PollEvent.failed failure).Refuses) ∧
      ∀ text cause, raised ≠ .timeoutError text cause := by
  obtain ⟨kind, typeName, text, repr⟩ := failure
  cases kind with
  | rpcError code =>
      have refused : code ≠ IN_WARMUP := decisive
      refine ⟨.runtimeError _ _, by simp only [judge, if_pos refused]; rfl, ?_, by simp⟩
      exact ⟨fun _ => refused, fun _ => ⟨_, _, rfl⟩⟩
  | httpError status =>
      have refused : status = 401 ∨ status = 403 := by
        by_contra served
        exact decisive (not_or.mp served)
      refine ⟨.runtimeError _ _, by simp only [judge, if_pos refused]; rfl, ?_, by simp⟩
      exact ⟨fun _ => refused, fun _ => ⟨_, _, rfl⟩⟩
  | exception => exact absurd trivial decisive
  | baseException => exact ⟨.failed _, rfl, ⟨by simp, False.elim⟩, by simp⟩

theorem refuseExit_raises (rpcWait : RpcWait) (exitCode : Int) (machine : Machine ω) :
    ∃ raised reached, refuseExit host rpcWait (some exitCode) machine = (.error raised, reached) := by
  rcases run : refuseExit host rpcWait (some exitCode) machine with ⟨raised | ⟨⟩, reached⟩
  · exact ⟨raised, reached, rfl⟩
  · obtain ⟨_, _, _, rest⟩ := Action.bind_ok_iff.mp run
    obtain ⟨_, _, _, returned⟩ := Action.bind_ok_iff.mp rest
    cases returned

theorem pollTurn_of_exit {machine : Machine ω} {exitCode : Int}
    (exits : (polled host machine).exitCode rpcWait.process = some exitCode) :
    ∃ raised reached, pollTurn host rpcWait (compared host machine) = (.error raised, reached) ∧
      refuseExit host rpcWait (some exitCode) (polled host machine) = (.error raised, reached) := by
  obtain ⟨raised, reached, refused⟩ := @refuseExit_raises ω host rpcWait exitCode
    (polled host machine)
  have polls : poll host rpcWait.process (compared host machine) =
      (.ok (some exitCode), polled host machine) := by
    rw [← exits]
    rfl
  refine ⟨raised, reached, ?_, refused⟩
  rw [pollTurn, Action.bind_of_ok _ polls, Action.bind_of_error _ refused]

theorem pollTurn_of_alive {machine : Machine ω}
    (alive : (polled host machine).exitCode rpcWait.process = none) :
    pollTurn host rpcWait (compared host machine) =
      judge (called host machine).1 (called host machine).2 := by
  have polls : poll host rpcWait.process (compared host machine) =
      (.ok none, polled host machine) := by
    rw [← alive]
    rfl
  rw [pollTurn, Action.bind_of_ok _ polls]
  rfl

theorem pollUntil_step (turns : Nat) (ignored : Ignored) (machine : Machine ω) :
    (∃ events stopped, Polls host rpcWait deadline machine events stopped ∧
      pollUntil host rpcWait deadline (turns + 1) ignored machine =
        conclude host rpcWait ignored events stopped) ∨
    ∃ failure, (compared host machine).now < deadline ∧
      (polled host machine).exitCode rpcWait.process = none ∧
      (called host machine).1 = .error failure ∧ failure.Transient ∧
      pollUntil host rpcWait deadline (turns + 1) ignored machine =
        pollUntil host rpcWait deadline turns (ignored.note failure)
          (slept host (called host machine).2) := by
  have compares : monotonic host machine =
      (.ok (compared host machine).now, compared host machine) := rfl
  rw [pollUntil, Action.bind_of_ok _ compares]
  by_cases early : (compared host machine).now < deadline
  · rw [if_pos early]
    cases exits : (polled host machine).exitCode rpcWait.process with
    | some exitCode =>
        obtain ⟨raised, reached, turn, refused⟩ := pollTurn_of_exit exits
        refine .inl ⟨_, _, .exited early exits, ?_⟩
        rw [Action.bind_of_error _ turn, conclude, refused]
    | none =>
        have turn := pollTurn_of_alive exits
        rcases answered : (called host machine).1 with failure | ⟨⟩
        · rw [answered] at turn
          by_cases transient : failure.Transient
          · rw [judge_transient transient] at turn
            refine .inr ⟨failure, early, rfl, rfl, transient, ?_⟩
            rw [Action.bind_of_ok _ turn]
            rfl
          · obtain ⟨raised, judged, _, _⟩ := judge_decisive transient (called host machine).2
            rw [judged] at turn
            refine .inl ⟨_, _, .decided early exits ?_, ?_⟩
            · rw [answered]
              exact transient
            · rw [Action.bind_of_error _ turn, answered, PollEvent.ofAnswer, conclude,
                if_neg transient, Action.bind_of_error _ judged]
        · rw [answered] at turn
          refine .inl ⟨_, _, .decided early exits ?_, ?_⟩
          · rw [answered]
            trivial
          · rw [Action.bind_of_ok _ turn, answered]
            rfl
  · rw [if_neg early]
    exact .inl ⟨[], _, .late (Int.not_lt.mp early), rfl⟩

/-- Where `turns` sleeps reach the deadline, the loop is all of the events. -/
theorem pollUntil_polls (turns : Nat) :
    ∀ (ignored : Ignored) (machine : Machine ω), deadline ≤ machine.now + 100 * turns →
      ∃ events stopped, Polls host rpcWait deadline machine events stopped ∧
        pollUntil host rpcWait deadline (turns + 1) ignored machine =
          conclude host rpcWait ignored events stopped := by
  have later (bound : Int) (machine : Machine ω) : machine.now ≤ (machine.elapsed host bound).now :=
    (@elapse_elapses ω host bound machine).now
  induction turns with
  | zero =>
      intro ignored machine reached
      rcases @pollUntil_step ω host rpcWait deadline 0 ignored machine with ended | ⟨_, early, _⟩
      · exact ended
      · have after : machine.now ≤ (compared host machine).now := later 0 machine
        omega
  | succ turns ih =>
      intro ignored machine reached
      rcases @pollUntil_step ω host rpcWait deadline (turns + 1) ignored machine with
        ended | ⟨failure, early, alive, fails, transient, same⟩
      · exact ended
      · have first : machine.now ≤ (compared host machine).now := later 0 machine
        have second : (compared host machine).now ≤ (polled host machine).now :=
          later 0 (compared host machine)
        have third : (polled host machine).now ≤ (called host machine).2.now :=
          later 0 (polled host machine)
        have fourth : (called host machine).2.now + 100 ≤ (slept host (called host machine).2).now :=
          Int.add_le_add_right (later 100 (called host machine).2) 100
        obtain ⟨events, stopped, rest, concluded⟩ := ih (ignored.note failure)
          (slept host (called host machine).2) (by push_cast at reached; omega)
        refine ⟨.failed failure :: events, stopped, .ignored early alive fails transient rest, ?_⟩
        rw [same, concluded, conclude, if_pos transient]

theorem waitForRpc_polls (host : Host ω) (rpcWait : RpcWait) (machine : Machine ω) :
    ∃ events stopped,
      Polls host rpcWait ((compared host machine).now + rpcWait.timeout) (compared host machine)
        events stopped ∧
      waitForRpc host rpcWait machine = conclude host rpcWait ⟨none, []⟩ events stopped := by
  have unfolded : waitForRpc host rpcWait machine =
      pollUntil host rpcWait ((compared host machine).now + rpcWait.timeout)
        ((rpcWait.timeout / 100).toNat + 1 + 1) ⟨none, []⟩ (compared host machine) := rfl
  rw [unfolded]
  apply pollUntil_polls
  push_cast
  omega

end Turn

/-! ## The first decisive event -/

section Events

variable {ω : Type} {host : Host ω} {rpcWait : RpcWait} {deadline : Int}

/-- The events are failures waited out and then the deadline, or a decisive event. -/
theorem Polls.ends {machine stopped : Machine ω} {events : List PollEvent}
    (polls : Polls host rpcWait deadline machine events stopped) :
    (∀ event ∈ events, ¬ event.Decisive) ∧ deadline ≤ stopped.now ∨
    ∃ before last, events = before ++ [last] ∧ (∀ event ∈ before, ¬ event.Decisive) ∧
      last.Decisive := by
  induction polls with
  | late late => exact .inl ⟨nofun, late⟩
  | exited _ _ => exact .inr ⟨[], _, rfl, nofun, trivial⟩
  | decided _ _ decisive => exact .inr ⟨[], _, rfl, nofun, decisive⟩
  | @ignored machine stopped failure events early alive fails transient rest ih =>
      have waits : ¬ (PollEvent.failed failure).Decisive := not_not.mpr transient
      rcases ih with ⟨none, late⟩ | ⟨before, last, rfl, none, decisive⟩
      · exact .inl ⟨List.forall_mem_cons.mpr ⟨waits, none⟩, late⟩
      · exact .inr ⟨_ :: before, last, rfl, List.forall_mem_cons.mpr ⟨waits, none⟩, decisive⟩

theorem conclude_append (before rest : List PollEvent) :
    ∀ ignored, (∀ event ∈ before, ¬ event.Decisive) →
      conclude host rpcWait ignored (before ++ rest) =
        conclude host rpcWait (ignored.noteAll (failuresOf before)) rest := by
  induction before with
  | nil => exact fun _ _ => rfl
  | cons event before ih =>
      intro ignored waits
      have now := waits event List.mem_cons_self
      have later := fun other member => waits other (List.mem_cons_of_mem event member)
      cases event with
      | exited exitCode => exact absurd trivial now
      | answered => exact absurd trivial now
      | failed failure =>
          rw [List.cons_append, conclude, if_pos (not_not.mp now), ih _ later]
          rfl

end Events

/-! ## The failures ignored -/

/-- The latest of the failures, and how often each type of exception came. -/
structure Ignored.Counts (failures : List Failure) (ignored : Ignored) : Prop where
  latest : ignored.lastError = failures.getLast?
  types : (ignored.counts.map Prod.fst).Nodup
  counts : ∀ typeName, (ignored.counts.lookup typeName).getD 0 =
    failures.countP fun failure => failure.typeName = typeName
  met : ∀ entry ∈ ignored.counts, 0 < entry.2

theorem countUp_types (typeName : String) (counts : List (String × Nat)) :
    (countUp typeName counts).map Prod.fst =
      if typeName ∈ counts.map Prod.fst then counts.map Prod.fst
      else counts.map Prod.fst ++ [typeName] := by
  induction counts with
  | nil => rfl
  | cons entry rest ih =>
      obtain ⟨name, count⟩ := entry
      by_cases same : name = typeName
      · simp [countUp, same]
      · rw [countUp, if_neg same, List.map_cons, ih]
        have other : ¬ typeName = name := fun reversed => same reversed.symm
        simp only [List.map_cons, List.mem_cons, other, false_or]
        split
        · rfl
        · rfl

theorem countUp_lookup (typeName other : String) (counts : List (String × Nat)) :
    ((countUp typeName counts).lookup other).getD 0 =
      (counts.lookup other).getD 0 + if typeName = other then 1 else 0 := by
  induction counts with
  | nil =>
      by_cases same : typeName = other
      · simp [countUp, same]
      · have apart : (other == typeName) = false := by simpa using fun reversed => same reversed.symm
        simp [countUp, List.lookup_cons, apart, same]
  | cons entry rest ih =>
      obtain ⟨name, count⟩ := entry
      by_cases same : name = typeName
      · subst same
        by_cases asked : name = other
        · simp [countUp, asked]
        · have apart : (other == name) = false := by simpa using fun reversed => asked reversed.symm
          simp [countUp, List.lookup_cons, apart, asked]
      · rw [countUp, if_neg same]
        by_cases asked : name = other
        · have apart : ¬ typeName = other := fun reversed => same (asked.trans reversed.symm)
          simp [asked, apart]
        · have apart : (other == name) = false := by simpa using fun reversed => asked reversed.symm
          simp only [List.lookup_cons, apart, ih]

theorem countUp_met (typeName : String) (counts : List (String × Nat))
    (met : ∀ entry ∈ counts, 0 < entry.2) : ∀ entry ∈ countUp typeName counts, 0 < entry.2 := by
  induction counts with
  | nil => simp [countUp]
  | cons entry rest ih =>
      obtain ⟨name, count⟩ := entry
      have later := ih fun other member => met other (List.mem_cons_of_mem _ member)
      rw [countUp]
      split
      · exact List.forall_mem_cons.mpr ⟨Nat.succ_pos count, (List.forall_mem_cons.mp met).2⟩
      · exact List.forall_mem_cons.mpr ⟨(List.forall_mem_cons.mp met).1, later⟩

theorem Ignored.Counts.note {failures : List Failure} {ignored : Ignored}
    (counts : ignored.Counts failures) (failure : Failure) :
    (ignored.note failure).Counts (failures ++ [failure]) where
  latest := List.getLast?_concat.symm
  types := by
    rw [Ignored.note, countUp_types]
    split
    · exact counts.types
    · rename_i new
      exact List.nodup_append.mpr ⟨counts.types, List.pairwise_singleton _ _, fun name member _ alone =>
        fun same => new (List.mem_singleton.mp alone ▸ same ▸ member)⟩
  counts typeName := by
    rw [Ignored.note, countUp_lookup, counts.counts, List.countP_append, List.countP_singleton]
    simp
  met := countUp_met failure.typeName ignored.counts counts.met

theorem Ignored.Counts.noteAll (failures : List Failure) :
    ∀ {before : List Failure} {ignored : Ignored}, ignored.Counts before →
      (ignored.noteAll failures).Counts (before ++ failures) := by
  induction failures with
  | nil => exact fun counts => by rwa [List.append_nil]
  | cons failure rest ih =>
      intro before ignored counts
      have later := ih (counts.note failure)
      rw [List.append_assoc] at later
      exact later

/-! ## The wait -/

/-- The files the node writes to can be read, where they exist. -/
def Readable {ω : Type} (host : Host ω) : Prop :=
  ∀ path offset world, ∃ output reached, host.readOutput path offset world = (.ok output, reached)

section Wait

variable {ω : Type} {host : Host ω}

theorem readOutput_reads (readable : Readable host) (path : String) (offset : Nat)
    (machine : Machine ω) : ∃ output reached,
      readOutput host path offset machine = (.ok output, reached) := by
  obtain ⟨output, world, read⟩ := readable path offset machine.world
  exact ⟨output, { machine with world := world }, by simp only [readOutput, attempt, read]⟩

theorem logSince_reads (readable : Readable host) (logPath : Option String) (logOffset : Nat)
    (machine : Machine ω) : ∃ log reached,
      logSince host logPath logOffset machine = (.ok log, reached) := by
  cases logPath with
  | none => exact ⟨_, _, rfl⟩
  | some path =>
      obtain ⟨output, reached, read⟩ := readOutput_reads readable path logOffset machine
      exact ⟨_, _, Action.bind_of_ok _ read⟩

theorem refuseExit_readable (readable : Readable host) (rpcWait : RpcWait) (exitCode : Int)
    (machine : Machine ω) : ∃ text,
      (refuseExit host rpcWait (some exitCode) machine).1 = .error (.runtimeError text none) := by
  obtain ⟨stderr, middle, read⟩ := readOutput_reads readable rpcWait.stderrPath 0 machine
  obtain ⟨log, reached, logged⟩ := logSince_reads readable
    (if rpcWait.logOnExit then rpcWait.logPath else none) rpcWait.logOffset middle
  rw [refuseExit, Action.bind_of_ok _ read, Action.bind_of_ok _ logged]
  exact ⟨_, rfl⟩

theorem giveUp_readable (readable : Readable host) (rpcWait : RpcWait) (ignored : Ignored)
    (machine : Machine ω) : ∃ text,
      (giveUp host rpcWait ignored machine).1 = .error (.timeoutError text ignored.lastError) := by
  obtain ⟨stderr, middle, read⟩ := readOutput_reads readable rpcWait.stderrPath 0 machine
  obtain ⟨log, reached, logged⟩ :=
    logSince_reads readable rpcWait.logPath rpcWait.logOffset middle
  rw [giveUp, Action.bind_of_ok _ read, Action.bind_of_ok _ logged]
  exact ⟨_, rfl⟩

theorem conclude_decisive (readable : Readable host) (rpcWait : RpcWait) (ignored : Ignored)
    {event : PollEvent} (decisive : event.Decisive) (stopped : Machine ω) :
    let result := (conclude host rpcWait ignored [event] stopped).1
    (result = .ok () ↔ event = .answered) ∧
    ((∃ text cause, result = .error (.runtimeError text cause)) ↔ event.Refuses) ∧
    ∀ text cause, result ≠ .error (.timeoutError text cause) := by
  cases event with
  | exited exitCode =>
      obtain ⟨text, refused⟩ := refuseExit_readable readable rpcWait exitCode stopped
      rw [conclude, refused]
      exact ⟨⟨nofun, nofun⟩, ⟨fun _ => trivial, fun _ => ⟨text, none, rfl⟩⟩, nofun⟩
  | answered => exact ⟨⟨fun _ => rfl, fun _ => rfl⟩, ⟨nofun, False.elim⟩, nofun⟩
  | failed failure =>
      obtain ⟨raised, judged, refuses, notTimeout⟩ := judge_decisive decisive stopped
      rw [conclude, if_neg decisive, Action.bind_of_error _ judged]
      refine ⟨⟨nofun, nofun⟩, ?_, fun text cause same => notTimeout text cause (Except.error.inj same)⟩
      rw [← refuses]
      constructor
      · rintro ⟨text, cause, same⟩
        exact ⟨text, cause, Except.error.inj same⟩
      · rintro ⟨text, cause, rfl⟩
        exact ⟨text, cause, rfl⟩

end Wait

/-- The result of a wait that met `events` and stopped at `stopped`, by the first decisive one
of them. -/
structure DecidedBy {ω : Type} (host : Host ω) (rpcWait : RpcWait) (machine : Machine ω)
    (events : List PollEvent) (stopped : Machine ω) : Prop where
  returns : (waitForRpc host rpcWait machine).1 = .ok () ↔
    events.find? PollEvent.Decisive = some .answered
  refuses : (∃ text cause, (waitForRpc host rpcWait machine).1 = .error (.runtimeError text cause)) ↔
    ∃ event, events.find? PollEvent.Decisive = some event ∧ event.Refuses
  timesOut : (∃ text cause,
      (waitForRpc host rpcWait machine).1 = .error (.timeoutError text cause)) ↔
    events.find? PollEvent.Decisive = none
  late : events.find? PollEvent.Decisive = none →
    (compared host machine).now + rpcWait.timeout ≤ stopped.now
  ignores : ∀ text cause, (waitForRpc host rpcWait machine).1 = .error (.timeoutError text cause) →
    ∃ ignored, waitForRpc host rpcWait machine = giveUp host rpcWait ignored stopped ∧
      ignored.Counts (failuresOf events) ∧ cause = (failuresOf events).getLast?
  noCall : ∀ exitCode, .exited exitCode ∈ events → events.getLast? = some (.exited exitCode) ∧
    ∀ getBlockchainInfo, waitForRpc host rpcWait machine =
      refuseExit { host with getBlockchainInfo := getBlockchainInfo } rpcWait (some exitCode) stopped

section Decided

variable {ω : Type} {host : Host ω}

theorem waitForRpc_decided (readable : Readable host) (rpcWait : RpcWait) (machine : Machine ω) :
    ∃ events stopped,
      Polls host rpcWait ((compared host machine).now + rpcWait.timeout) (compared host machine)
        events stopped ∧
      DecidedBy host rpcWait machine events stopped := by
  obtain ⟨events, stopped, polls, run⟩ := waitForRpc_polls host rpcWait machine
  refine ⟨events, stopped, polls, ?_⟩
  have start : (⟨none, []⟩ : Ignored).Counts [] := ⟨rfl, List.nodup_nil, fun _ => rfl, nofun⟩
  rcases polls.ends with ⟨waits, late⟩ | ⟨before, last, rfl, waits, decisive⟩
  · -- every event was waited out, and the deadline came
    have none : events.find? PollEvent.Decisive = none := by
      simpa using waits
    have counts := start.noteAll (failuresOf events)
    have gaveUp : waitForRpc host rpcWait machine =
        giveUp host rpcWait (Ignored.noteAll (failuresOf events) ⟨Option.none, []⟩) stopped := by
      have all := @conclude_append ω host rpcWait events [] ⟨Option.none, []⟩ waits
      rw [List.append_nil] at all
      rw [run, all, conclude]
    obtain ⟨text, raised⟩ := giveUp_readable readable rpcWait _ stopped
    rw [← gaveUp] at raised
    constructor
    · rw [raised, none]
      exact ⟨nofun, nofun⟩
    · rw [raised, none]
      exact ⟨nofun, nofun⟩
    · rw [raised, none]
      exact ⟨fun _ => rfl, fun _ => ⟨text, _, rfl⟩⟩
    · exact fun _ => late
    · intro text' cause raises
      rw [raised] at raises
      refine ⟨_, gaveUp, counts, ?_⟩
      cases raises
      exact counts.latest
    · exact fun exitCode member => absurd trivial (waits _ member)
  · -- the last event is the one decisive
    have first : (before ++ [last]).find? PollEvent.Decisive = some last := by
      have passed : before.find? PollEvent.Decisive = none := by simpa using waits
      rw [List.find?_append, passed, Option.none_or, List.find?_singleton,
        if_pos (decide_eq_true decisive)]
    rw [conclude_append before [last] _ waits] at run
    obtain ⟨returns, refuses, notTimeout⟩ := conclude_decisive readable rpcWait
      (Ignored.noteAll (failuresOf before) ⟨none, []⟩) decisive stopped
    rw [← run] at returns refuses notTimeout
    constructor
    · rw [first, returns, Option.some.injEq]
    · rw [first, refuses]
      exact ⟨fun refuses => ⟨last, rfl, refuses⟩, fun ⟨_, same, refuses⟩ =>
        Option.some.inj same ▸ refuses⟩
    · rw [first]
      exact ⟨fun ⟨text, cause, raises⟩ => absurd raises (notTimeout text cause), nofun⟩
    · rw [first]
      exact nofun
    · exact fun text cause raises => absurd raises (notTimeout text cause)
    · intro exitCode member
      rcases List.mem_append.mp member with earlier | isLast
      · exact absurd trivial (waits _ earlier)
      · obtain rfl := List.mem_singleton.mp isLast
        exact ⟨List.getLast?_concat, fun _ => run⟩

/-- A node that warms up while it refuses connections now and then: the world counts the
calls. -/
def warming : Host Nat where
  meanwhile _ calls := (⟨1, fun _ => none⟩, calls)
  signal _ _ calls := calls
  makeDirectory _ calls := (.ok (), calls)
  size _ calls := (.ok 0, calls)
  temporaryFile directory calls := (.ok s!"{directory}/tmp", calls)
  popen _ calls := (.ok (), calls)
  rpcClient calls := (.ok (), calls)
  getBlockchainInfo calls :=
    (.error (if calls % 2 = 0 then ⟨.rpcError IN_WARMUP, "RpcError", "Loading block index…", ""⟩
      else ⟨.exception, "ConnectionRefusedError", "[Errno 111] Connection refused", ""⟩), calls + 1)
  readOutput _ _ calls := (.ok "", calls)
  scaled timeout _ := timeout
  closeSessions calls := calls

theorem waitForRpc_decided_warming :
    ∃ events stopped,
      Polls warming ⟨0, "stderr", 1000, none, 0, false⟩
        ((compared warming ⟨none, [⟨[], none⟩], 0, 0⟩).now + 1000)
        (compared warming ⟨none, [⟨[], none⟩], 0, 0⟩) events stopped ∧
      DecidedBy warming ⟨0, "stderr", 1000, none, 0, false⟩ ⟨none, [⟨[], none⟩], 0, 0⟩ events
        stopped :=
  waitForRpc_decided (fun _ _ calls => ⟨"", calls, rfl⟩) _ _

end Decided

end BitcoinNodeTests
