import Mathlib.Data.List.TakeWhile
import BitcoinNodeTests.Foundation.Turns
import BitcoinNodeTests.Peer.Arrived
import BitcoinNodeTests.Peer.Paced
import BitcoinNodeTests.Peer.PlainWire

/-!
# Waits and their deadlines

`wait_for` and `wait_for_disconnect` turn their deadline into a timeout once a turn, and the
receive of that turn makes any number of reads at it.  No read of either call goes past the
deadline exactly where each receive begun before it has all it needs in what comes by the deadline,
or nothing comes in the meantime.
-/

set_option autoImplicit false

namespace BitcoinNodeTests

open Foundation Relation

/-- What `wait_for_disconnect` raises: its own `AssertionError`, or what a call it makes raised. -/
inductive DisconnectRaised where
  | assertionError (text : String)
  | raised (error : Raised)
  deriving DecidableEq, Repr

namespace Endpoint

variable {σ : Type} (endpoint : Endpoint σ)

/-- What a `receive` that `wait_for_disconnect` makes comes to. -/
inductive Drained where
  | message
  | closed
  | timedOut

/-- `ConnectionResetError` derives from `ConnectionError`. -/
def drain (remaining : Int) : Action σ DisconnectRaised Drained := fun state =>
  match endpoint.receive remaining state with
  | (.ok _, reached) => (.ok .message, reached)
  | (.error (.connectionError _), reached) => (.ok .closed, reached)
  | (.error .connectionReset, reached) => (.ok .closed, reached)
  | (.error .timeoutError, reached) => (.ok .timedOut, reached)
  | (.error error, reached) => (.error (.raised error), reached)

def drainMonotonic : Action σ DisconnectRaised Int := fun state =>
  match endpoint.monotonic state with
  | (.ok time, reached) => (.ok time, reached)
  | (.error error, reached) => (.error (.raised error), reached)

def neverClosed {α : Type} : Action σ DisconnectRaised α :=
  Action.raise (.assertionError "connection was not closed within the wait")

/-- `wait_for_disconnect`'s loop, which makes as many turns as it is given at most. -/
def drainUntil (deadline : Int) : Nat → Action σ DisconnectRaised Unit
  | 0 => Action.raise (.raised .waiting)
  | turns + 1 => do
      let time ← endpoint.drainMonotonic
      if deadline - time ≤ 0 then neverClosed
      else
        let drained ← endpoint.drain (deadline - time)
        match drained with
        | .message => drainUntil deadline turns
        | .closed => pure ()
        | .timedOut => neverClosed

def waitForDisconnect (timeout : Option Int) (turns : Nat) : Action σ DisconnectRaised Unit := do
  let time ← endpoint.drainMonotonic
  let wait := match timeout with
    | none => endpoint.timeout
    | some timeout => endpoint.scaled timeout
  endpoint.drainUntil (time + wait) turns

end Endpoint

/-- `Message.parse` takes octets of those it is given, and takes some. -/
def Progress (wire : Wire) : Prop :=
  ∀ octets message length, wire.parse octets = .whole message length →
    0 < length ∧ length ≤ octets.length

namespace Clocked

/-! ## One receive -/

def dueBy (deadline : Int) (state : Clocked) : List Due :=
  state.schedule.takeWhile fun due => due.time ≤ deadline

/-- What the peer holds and what comes by the deadline is all that `receive` needs to end. -/
def Suffices (wire : Wire) (deadline : Int) (state : Clocked) : Prop :=
  (Peer.receive wire
    { state.peer with arrivals := (dueBy deadline state).map Due.arrival }).1 ≠ .error .waiting

/-- Nothing that comes by the deadline is still to come. -/
def Still (deadline : Int) (state : Clocked) : Prop :=
  ∀ due ∈ dueBy deadline state, due.time ≤ state.time

instance (deadline : Int) (state : Clocked) : Decidable (Still deadline state) :=
  inferInstanceAs (Decidable (∀ due ∈ dueBy deadline state, due.time ≤ state.time))

def Ready (wire : Wire) (deadline : Int) (state : Clocked) : Prop :=
  Suffices wire deadline state ∨ Still deadline state

/-- A message that comes whole by the deadline, decoys before it or not, suffices. -/
theorem suffices_of_arrived {wire : Wire} {deadline : Int} {state : Clocked} {message : Message}
    {later : List Message} (arrived : Peer.Arrived wire (message :: later)
      { state.peer with arrivals := (dueBy deadline state).map Due.arrival }) :
    Suffices wire deadline state := by
  obtain ⟨read, run, -, -⟩ := arrived.receive
  unfold Suffices
  rw [run]
  nofun

theorem latest_le_iff {dues : List Due} {bound : Int} : ∀ {time : Int},
    latest time dues ≤ bound ↔ time ≤ bound ∧ ∀ due ∈ dues, due.time ≤ bound := by
  induction dues with
  | nil => simp [latest]
  | cons due dues ih =>
      intro time
      have step : latest time (due :: dues) = latest (max time due.time) dues := rfl
      rw [step, ih, max_le_iff, List.forall_mem_cons, and_assoc]

theorem still_iff {deadline : Int} {state : Clocked} :
    Still deadline state ↔ latest state.time (dueBy deadline state) ≤ state.time := by
  rw [latest_le_iff]
  exact (and_iff_right le_rfl).symm

/-- A receive begun before the deadline, at the timeout that is left. -/
theorem receiveFor_run {wire : Wire} {own : Nat} {deadline : Int} {state : Clocked}
    (before : state.time < deadline) :
    receiveFor wire own (deadline - state.time) state =
      Action.ensuring (receive wire) (fun state => { state with timeout := own })
        { state with timeout := (deadline - state.time).toNat } := by
  unfold receiveFor
  rw [if_neg (by omega), Action.update_bind]

/-- It ends by the deadline exactly where it had what it needs, or was to wait for all of it. -/
theorem receiveFor_time_iff {wire : Wire} {own : Nat} {deadline : Int} {state : Clocked}
    (before : state.time < deadline) :
    (receiveFor wire own (deadline - state.time) state).2.time ≤ deadline ↔
      Ready wire deadline state := by
  rw [receiveFor_run before, Action.ensuring_apply]
  let begun : Clocked := { state with timeout := (deadline - state.time).toNat }
  have left : ((deadline - state.time).toNat : Int) = deadline - state.time :=
    Int.toNat_of_nonneg (by omega)
  have splits : Splits ⟨deadline, (deadline - state.time).toNat,
      latest state.time (dueBy deadline state)⟩ (dueBy deadline state)
      (state.schedule.dropWhile fun due => due.time ≤ deadline)
      { state.peer with arrivals := (dueBy deadline state).map Due.arrival } begun := by
    refine ⟨List.takeWhile_append_dropWhile.symm, fun due member => ?_, fun due first => ?_, rfl,
      before.le, rfl, by dsimp only [begun]; omega, rfl⟩
    · have early := List.mem_takeWhile_imp member
      exact of_decide_eq_true early
    · have late := List.head?_dropWhile_not (fun due : Due => due.time ≤ deadline) state.schedule
      rw [first] at late
      exact not_le.mp (of_decide_eq_false late)
  show (receive wire begun).2.time ≤ deadline ↔ _
  have ends := ((receive_paces wire).timely begun).2
  rcases (receive_paces wire).follows _ _ begun ⟨_, _, splits⟩ with
    ⟨waits, late | ⟨-, stopped⟩⟩ | ⟨same, _, _, after⟩
  · have further : ¬ Still deadline state := by
      rw [still_iff]
      have := late.1
      dsimp only at this
      omega
    exact iff_of_false (not_le.mpr late.2) (not_or_intro (not_not_intro waits) further)
  · have still : Still deadline state := by
      rw [still_iff]
      have := stopped.1
      dsimp only at this
      omega
    exact iff_of_true stopped.2 (.inr still)
  · refine iff_of_true after.time (.inl fun waits => ends ?_)
    rw [← same]
    exact waits

theorem readUntil_message_shrinks {wire : Wire} (progress : Progress wire) {magic : List Octet}
    {state reached : Clocked} {message : Message}
    (run : readUntil (Peer.messageReader wire magic) state = (.ok message, reached)) :
    reached.ahead.length < state.ahead.length := by
  obtain ⟨held, whole, verdict, -⟩ := readUntil_ok state run
  unfold Peer.messageReader at verdict
  dsimp only at verdict
  split at verdict
  · cases verdict
  · split at verdict
    · rename_i parsed
      simp only [Verdict.done.injEq] at verdict
      obtain ⟨some, bound⟩ := progress _ _ _ parsed
      rw [← whole, ahead, ← verdict.2, List.length_append, List.length_append, List.length_drop]
      omega
    · cases verdict
    · cases verdict

theorem receiveV2_shrinks {wire : Wire} {cipher : Cipher} {reached : Clocked} {message : Message}
    (state : Clocked) : intake.receiveV2 wire cipher state = (.ok message, reached) →
      reached.ahead.length < state.ahead.length := by
  induction size : state.ahead.length using Nat.strong_induction_on generalizing state with
  | _ length ih =>
      subst size
      rw [Intake.receiveV2_turn]
      intro run
      obtain ⟨answer, middle, read, rest⟩ := Action.bind_ok_iff.mp run
      have shorter : middle.ahead.length < state.ahead.length := Intake.receivePacket_shrinks read
      have later := fun again => (ih _ shorter middle rfl again).trans shorter
      unfold Intake.onPacket at rest
      split at rest
      · exact later rest
      · split at rest
        · exact later rest
        · cases rest
          exact shorter

theorem receive_shrinks {wire : Wire} (progress : Progress wire) {state reached : Clocked}
    {message : Message} (run : receive wire state = (.ok message, reached)) :
    reached.ahead.length < state.ahead.length := by
  have counted {body : Action Clocked Raised Message}
      (run : (body >>= fun message => onPeer (Action.update (Peer.count message)) >>= fun _ =>
        pure message) state = (.ok message, reached))
      (shrinks : ∀ {found middle}, body state = (.ok found, middle) →
        middle.ahead.length < state.ahead.length) : reached.ahead.length < state.ahead.length := by
    obtain ⟨found, middle, bodyRun, rest⟩ := Action.bind_ok_iff.mp run
    have shorter := shrinks bodyRun
    cases rest
    exact shorter
  unfold receive Intake.receive at run
  rw [Action.read_bind] at run
  cases speaks : (intake.peer state).cipher with
  | none =>
      rw [speaks] at run
      exact counted run fun found => readUntil_message_shrinks progress found
  | some cipher =>
      rw [speaks] at run
      exact counted run fun found => receiveV2_shrinks state found

/-- What a receive of the endpoint takes: time to read, and octets where it returns. -/
theorem receiveFor_spec {wire : Wire} (progress : Progress wire) {own : Nat} {deadline : Int}
    {state reached : Clocked} {result : Except Raised Message} (before : state.time < deadline)
    (run : receiveFor wire own (deadline - state.time) state = (result, reached)) :
    Passed state reached ∧ result ≠ .error .waiting ∧
      ∀ message, result = .ok message → reached.ahead.length < state.ahead.length := by
  rw [receiveFor_run before, Action.ensuring_apply] at run
  obtain ⟨passed, ends⟩ := (receive_paces wire).timely
    { state with timeout := (deadline - state.time).toNat }
  rcases received : receive wire { state with timeout := (deadline - state.time).toNat } with
    ⟨answer, left⟩
  rw [received] at run passed ends
  cases run
  refine ⟨⟨passed.time, passed.made⟩, ends, fun message returned => ?_⟩
  subst returned
  have shorter := receive_shrinks progress received
  exact shorter

/-! ## Turns -/

section Turns

variable (wire : Wire) (pings : Pings) (own : Nat) (scaled : Int → Int) (command : String)
  (predicate : Option (Message → Except Raised Bool)) (deadline : Int)

/-- A turn of `wait_for` that goes on: the message is answered and dropped. -/
def WaitTurn (state reached : Clocked) : Prop :=
  state.time < deadline ∧ ∃ message read,
    receiveFor wire own (deadline - state.time) state = (.ok message, read) ∧
      (endpoint wire own scaled).answerPing pings message read = (.ok (), reached) ∧
      Endpoint.awaited command predicate message = .ok false

/-- A turn of `wait_for_disconnect` that goes on: the message is dropped. -/
def DrainTurn (state reached : Clocked) : Prop :=
  state.time < deadline ∧ ∃ message,
    receiveFor wire own (deadline - state.time) state = (.ok message, reached)

theorem answerPing_aside (message : Message) (state : Clocked) : ∃ result peer,
    (endpoint wire own scaled).answerPing pings message state =
        (result, { state with peer := peer }) ∧
      peer.buffer = state.peer.buffer ∧ result ≠ .error (.raised .waiting) := by
  unfold Endpoint.answerPing
  by_cases isPing : message.command = "ping"
  · rw [if_pos isPing]
    cases pings.parsePing message.payload with
    | none => exact ⟨_, _, rfl, rfl, by simp⟩
    | some nonce =>
        have sends : (endpoint wire own scaled).send "pong" (pings.pong nonce) state =
            onPeer (Peer.send wire "pong" (pings.pong nonce) false) state := rfl
        unfold Endpoint.lift
        dsimp only
        rw [sends, onPeer, Action.onPart_apply, Peer.send, Action.read_bind, id_eq]
        cases state.peer.cipher with
        | none => exact ⟨_, _, rfl, rfl, by simp⟩
        | some cipher => exact ⟨_, _, rfl, rfl, by simp⟩
  · rw [if_neg isPing]
    exact ⟨_, _, rfl, rfl, by simp⟩

theorem waitUntil_past {state : Clocked} (past : deadline ≤ state.time) (turns : Nat) :
    (endpoint wire own scaled).waitUntil pings command predicate deadline (turns + 1) state =
      Endpoint.neverSaw command state := by
  have ticked : Endpoint.lift (endpoint wire own scaled).monotonic state = (.ok state.time, state) :=
    rfl
  rw [Endpoint.waitUntil, Action.bind_of_ok _ ticked, if_pos (by omega)]

theorem waitUntil_before {state : Clocked} (before : state.time < deadline) (turns : Nat) :
    (endpoint wire own scaled).waitUntil pings command predicate deadline (turns + 1) state =
      match receiveFor wire own (deadline - state.time) state with
      | (.ok message, read) =>
          ((endpoint wire own scaled).answerPing pings message >>= fun _ =>
            match Endpoint.awaited command predicate message with
            | .error error => Action.raise (.raised error)
            | .ok true => pure message
            | .ok false => (endpoint wire own scaled).waitUntil pings command predicate deadline turns)
            read
      | (.error .timeoutError, read) => Endpoint.neverSaw command read
      | (.error error, read) => (.error (.raised error), read) := by
  have ticked : Endpoint.lift (endpoint wire own scaled).monotonic state = (.ok state.time, state) :=
    rfl
  have receives : (endpoint wire own scaled).receive (deadline - state.time) state =
      receiveFor wire own (deadline - state.time) state := rfl
  rw [Endpoint.waitUntil, Action.bind_of_ok _ ticked, if_neg (by omega), Action.bind_apply,
    Endpoint.receiveWithin, receives]
  rcases receiveFor wire own (deadline - state.time) state with ⟨error | message, read⟩
  · cases error with
    | timeoutError => rfl
    | valueError text => rfl
    | btclibValueError => rfl
    | connectionError text => rfl
    | connectionReset => rfl
    | waiting => rfl
  · rfl

variable {wire pings own scaled command predicate deadline}

theorem WaitTurn.functional {state first second : Clocked}
    (before : WaitTurn wire pings own scaled command predicate deadline state first)
    (after : WaitTurn wire pings own scaled command predicate deadline state second) :
    first = second := by
  obtain ⟨-, message, read, received, answered, -⟩ := before
  obtain ⟨-, other, otherRead, alsoReceived, alsoAnswered, -⟩ := after
  rw [received] at alsoReceived
  cases alsoReceived
  rw [answered] at alsoAnswered
  cases alsoAnswered
  rfl

theorem DrainTurn.functional {state first second : Clocked}
    (before : DrainTurn wire own deadline state first)
    (after : DrainTurn wire own deadline state second) : first = second := by
  obtain ⟨-, message, received⟩ := before
  obtain ⟨-, other, alsoReceived⟩ := after
  rw [received] at alsoReceived
  cases alsoReceived
  rfl

theorem DrainTurn.spec (progress : Progress wire) {state reached : Clocked}
    (turn : DrainTurn wire own deadline state reached) :
    Passed state reached ∧ reached.ahead.length < state.ahead.length := by
  obtain ⟨before, message, received⟩ := turn
  obtain ⟨passed, -, shorter⟩ := receiveFor_spec progress before received
  exact ⟨passed, shorter message rfl⟩

theorem WaitTurn.spec (progress : Progress wire) {state reached : Clocked}
    (turn : WaitTurn wire pings own scaled command predicate deadline state reached) :
    Passed state reached ∧ reached.ahead.length < state.ahead.length := by
  obtain ⟨before, message, read, received, answered, -⟩ := turn
  obtain ⟨passed, -, shorter⟩ := receiveFor_spec progress before received
  obtain ⟨result, peer, run, buffer, -⟩ := answerPing_aside wire pings own scaled message read
  rw [run] at answered
  cases answered
  refine ⟨passed.trans (.still rfl rfl), ?_⟩
  have shorter := shorter message rfl
  unfold ahead at shorter ⊢
  rw [buffer]
  exact shorter

theorem awaited_fair (fair : ∀ test ∈ predicate, ∀ message, test message ≠ .error .waiting)
    (message : Message) : Endpoint.awaited command predicate message ≠ .error .waiting := by
  unfold Endpoint.awaited
  split
  · cases predicate with
    | none => nofun
    | some test => exact fair test rfl message
  · nofun

theorem waitUntil_received {state read : Clocked} {message : Message}
    (fair : ∀ test ∈ predicate, ∀ message, test message ≠ .error .waiting)
    (before : state.time < deadline)
    (received : receiveFor wire own (deadline - state.time) state = (.ok message, read)) :
    (∃ reached, WaitTurn wire pings own scaled command predicate deadline state reached ∧ ∀ turns,
        (endpoint wire own scaled).waitUntil pings command predicate deadline (turns + 1) state =
          (endpoint wire own scaled).waitUntil pings command predicate deadline turns reached) ∨
      (∀ reached, ¬ WaitTurn wire pings own scaled command predicate deadline state reached) ∧
        ∃ ending, ending.1 ≠ .error (.raised .waiting) ∧ ∀ turns,
          (endpoint wire own scaled).waitUntil pings command predicate deadline (turns + 1) state =
            ending := by
  have turn := waitUntil_before wire pings own scaled command predicate deadline before
  obtain ⟨result, peer, run, -, ends⟩ := answerPing_aside wire pings own scaled message read
  simp only [received] at turn
  cases result with
  | error error =>
      refine .inr ⟨?_, (.error error, { read with peer := peer }), fun waits => ends ?_, fun turns => ?_⟩
      · rintro reached ⟨-, other, otherRead, alsoReceived, answered, -⟩
        rw [received] at alsoReceived
        cases alsoReceived
        rw [run] at answered
        cases answered
      · exact congrArg Except.error (Except.error.inj waits)
      · rw [turn]
        exact Action.bind_of_error _ run
  | ok value =>
      cases verdict : Endpoint.awaited command predicate message with
      | ok answer =>
          cases answer with
          | false =>
              refine .inl ⟨{ read with peer := peer },
                ⟨before, message, read, received, run, verdict⟩, fun turns => ?_⟩
              rw [turn, Action.bind_of_ok _ run, verdict]
          | true =>
              refine .inr ⟨?_, (.ok message, { read with peer := peer }), nofun, fun turns => ?_⟩
              · rintro reached ⟨-, other, otherRead, alsoReceived, -, refused⟩
                rw [received] at alsoReceived
                cases alsoReceived
                rw [verdict] at refused
                cases refused
              · rw [turn, Action.bind_of_ok _ run, verdict]
                rfl
      | error error =>
          refine .inr ⟨?_, (.error (.raised error), { read with peer := peer }), fun waits => ?_, fun turns => ?_⟩
          · rintro reached ⟨-, other, otherRead, alsoReceived, -, refused⟩
            rw [received] at alsoReceived
            cases alsoReceived
            rw [verdict] at refused
            cases refused
          · cases waits
            exact awaited_fair fair message verdict
          · rw [turn, Action.bind_of_ok _ run, verdict]
            rfl

theorem waitUntil_turns (progress : Progress wire)
    (fair : ∀ test ∈ predicate, ∀ message, test message ≠ .error .waiting) :
    Turns (fun turns state =>
        (endpoint wire own scaled).waitUntil pings command predicate deadline turns state)
      (.error (.raised .waiting)) (WaitTurn wire pings own scaled command predicate deadline) where
  spent _ := rfl
  step state := by
    rcases lt_or_ge state.time deadline with before | past
    · rcases received : receiveFor wire own (deadline - state.time) state with
        ⟨error | message, read⟩
      · have turn := waitUntil_before wire pings own scaled command predicate deadline before
        obtain ⟨-, ends, -⟩ := receiveFor_spec progress before received
        simp only [received] at turn
        refine .inr ⟨?_, ?_⟩
        · rintro reached ⟨-, message, otherRead, alsoReceived, -⟩
          rw [received] at alsoReceived
          cases alsoReceived
        · cases error with
          | waiting => exact absurd rfl ends
          | timeoutError => exact ⟨Endpoint.neverSaw command read, nofun, turn⟩
          | valueError text => exact ⟨(.error (.raised (.valueError text)), read), nofun, turn⟩
          | btclibValueError => exact ⟨(.error (.raised .btclibValueError), read), nofun, turn⟩
          | connectionError text =>
              exact ⟨(.error (.raised (.connectionError text)), read), nofun, turn⟩
          | connectionReset => exact ⟨(.error (.raised .connectionReset), read), nofun, turn⟩
      · exact waitUntil_received fair before received
    · refine .inr ⟨fun reached next => absurd next.1 (not_lt.mpr past), _, ?_, fun turns =>
        waitUntil_past wire pings own scaled command predicate deadline past turns⟩
      nofun

theorem drainUntil_past {state : Clocked} (past : deadline ≤ state.time) (turns : Nat) :
    (endpoint wire own scaled).drainUntil deadline (turns + 1) state =
      Endpoint.neverClosed state := by
  have ticked : (endpoint wire own scaled).drainMonotonic state = (.ok state.time, state) := rfl
  rw [Endpoint.drainUntil, Action.bind_of_ok _ ticked, if_pos (by omega)]

theorem drainUntil_before {state : Clocked} (before : state.time < deadline) (turns : Nat) :
    (endpoint wire own scaled).drainUntil deadline (turns + 1) state =
      match receiveFor wire own (deadline - state.time) state with
      | (.ok _, read) => (endpoint wire own scaled).drainUntil deadline turns read
      | (.error (.connectionError _), read) => (.ok (), read)
      | (.error .connectionReset, read) => (.ok (), read)
      | (.error .timeoutError, read) => Endpoint.neverClosed read
      | (.error error, read) => (.error (.raised error), read) := by
  have ticked : (endpoint wire own scaled).drainMonotonic state = (.ok state.time, state) := rfl
  have receives : (endpoint wire own scaled).receive (deadline - state.time) state =
      receiveFor wire own (deadline - state.time) state := rfl
  rw [Endpoint.drainUntil, Action.bind_of_ok _ ticked, if_neg (by omega), Action.bind_apply,
    Endpoint.drain, receives]
  rcases receiveFor wire own (deadline - state.time) state with ⟨error | message, read⟩
  · cases error with
    | timeoutError => rfl
    | valueError text => rfl
    | btclibValueError => rfl
    | connectionError text => rfl
    | connectionReset => rfl
    | waiting => rfl
  · rfl

/-- A turn of `wait_for_disconnect` goes on as `DrainTurn` says, or ends the call. -/
theorem drainUntil_turns (progress : Progress wire) :
    Turns (fun turns state => (endpoint wire own scaled).drainUntil deadline turns state)
      (.error (.raised .waiting)) (DrainTurn wire own deadline) where
  spent _ := rfl
  step state := by
    rcases lt_or_ge state.time deadline with before | past
    · have turn := @drainUntil_before wire own scaled deadline state before
      rcases received : receiveFor wire own (deadline - state.time) state with
        ⟨error | message, read⟩
      · obtain ⟨-, ends, -⟩ := receiveFor_spec progress before received
        simp only [received] at turn
        refine .inr ⟨?_, ?_⟩
        · rintro reached ⟨-, message, alsoReceived⟩
          rw [received] at alsoReceived
          cases alsoReceived
        · cases error with
          | waiting => exact absurd rfl ends
          | timeoutError => exact ⟨Endpoint.neverClosed read, nofun, turn⟩
          | valueError text => exact ⟨(.error (.raised (.valueError text)), read), nofun, turn⟩
          | btclibValueError => exact ⟨(.error (.raised .btclibValueError), read), nofun, turn⟩
          | connectionError text => exact ⟨(.ok (), read), nofun, turn⟩
          | connectionReset => exact ⟨(.ok (), read), nofun, turn⟩
      · simp only [received] at turn
        exact .inl ⟨read, ⟨before, message, received⟩, turn⟩
    · refine .inr ⟨fun reached next => absurd next.1 (not_lt.mpr past),
        Endpoint.neverClosed state, nofun, drainUntil_past past⟩

theorem waitUntil_once {state : Clocked} (before : state.time < deadline) : ∃ peer,
    ((endpoint wire own scaled).waitUntil pings command predicate deadline 1 state).2 =
      { (receiveFor wire own (deadline - state.time) state).2 with peer := peer } := by
  rw [waitUntil_before wire pings own scaled command predicate deadline before]
  rcases receiveFor wire own (deadline - state.time) state with ⟨error | message, read⟩
  · cases error with
    | timeoutError => exact ⟨_, rfl⟩
    | valueError text => exact ⟨_, rfl⟩
    | btclibValueError => exact ⟨_, rfl⟩
    | connectionError text => exact ⟨_, rfl⟩
    | connectionReset => exact ⟨_, rfl⟩
    | waiting => exact ⟨_, rfl⟩
  · obtain ⟨result, peer, run, -, -⟩ := answerPing_aside wire pings own scaled message read
    refine ⟨peer, ?_⟩
    dsimp only
    cases result with
    | error error => rw [Action.bind_of_error _ run]
    | ok value =>
        rw [Action.bind_of_ok _ run]
        rcases Endpoint.awaited command predicate message with error | answer
        · rfl
        · cases answer with
          | false => rfl
          | true => rfl

theorem drainUntil_once {state : Clocked} (before : state.time < deadline) :
    ((endpoint wire own scaled).drainUntil deadline 1 state).2 =
      (receiveFor wire own (deadline - state.time) state).2 := by
  rw [drainUntil_before before]
  rcases receiveFor wire own (deadline - state.time) state with ⟨error | message, read⟩
  · cases error with
    | timeoutError => rfl
    | valueError text => rfl
    | btclibValueError => rfl
    | connectionError text => rfl
    | connectionReset => rfl
    | waiting => rfl
  · rfl

end Turns

/-! ## Whole calls -/

/-- No read made meanwhile ended past the deadline, or answered what came past it. -/
def InTime (deadline : Int) (state reached : Clocked) : Prop :=
  ∀ read ∈ reached.reads.drop state.reads.length,
    read.ended ≤ deadline ∧ ∀ time ∈ read.arrived, time ≤ deadline

/-- A call that comes to an end, and makes no read past its deadline however many turns it has. -/
structure KeepsTo {ε α : Type} (deadline : Int) (out : ε) (call : Nat → Action Clocked ε α)
    (state : Clocked) : Prop where
  ends : ∃ enough, ∀ turns ≥ enough, (call turns state).1 ≠ .error out
  inTime : ∀ turns, InTime deadline state (call turns state).2

theorem KeepsTo.of_same {ε α : Type} {deadline : Int} {out : ε} {call other : Nat → Action Clocked ε α}
    {state : Clocked} (same : ∀ turns, call turns state = other turns state)
    (keeps : KeepsTo deadline out call state) : KeepsTo deadline out other state := by
  refine ⟨?_, fun turns => ?_⟩
  · obtain ⟨enough, ends⟩ := keeps.ends
    exact ⟨enough, fun turns more => by rw [← same]; exact ends turns more⟩
  · rw [← same]
    exact keeps.inTime turns

theorem Passed.inTime_iff {deadline : Int} {state reached : Clocked} (passed : Passed state reached)
    (before : state.time ≤ deadline) : InTime deadline state reached ↔ reached.time ≤ deadline := by
  obtain ⟨made, isMade, within, last⟩ := passed.made
  have drops : reached.reads.drop state.reads.length = made := by rw [isMade, List.drop_left]
  unfold InTime
  rw [drops]
  constructor
  · intro inTime
    by_contra later
    obtain ⟨read, member, ended⟩ := last (by omega)
    have := (inTime read member).1
    omega
  · intro inTime read member
    have ended := (within read member).ended.trans inTime
    exact ⟨ended, fun time arrived => ((within read member).arrived time arrived).trans ended⟩

section Loop

variable {wire : Wire} {deadline : Int} {ε α : Type} {out : ε} {call : Nat → Action Clocked ε α}
  {turn : Clocked → Clocked → Prop}

/-- A loop over receives: a turn that goes on was begun before the deadline and took octets, and
one turn leaves the clock where its receive does. -/
structure Receives (wire : Wire) (own : Nat) (deadline : Int) (out : ε)
    (call : Nat → Action Clocked ε α) (turn : Clocked → Clocked → Prop) : Prop where
  turns : Turns (fun turns state => call turns state) (.error out) turn
  functional : ∀ {state first second}, turn state first → turn state second → first = second
  before : ∀ {state reached}, turn state reached → state.time < deadline
  spec : ∀ {state reached}, turn state reached →
    Passed state reached ∧ reached.ahead.length < state.ahead.length
  past : ∀ {state}, deadline ≤ state.time → ∀ turns, (call turns state).2 = state
  once : ∀ {state}, state.time < deadline → ∃ peer, (call 1 state).2 =
    { (receiveFor wire own (deadline - state.time) state).2 with peer := peer }

variable {own : Nat}

theorem Receives.once_passed (receives : Receives wire own deadline out call turn)
    (progress : Progress wire) (state : Clocked) : Passed state (call 1 state).2 := by
  rcases lt_or_ge state.time deadline with before | past
  · obtain ⟨peer, same⟩ := receives.once before
    obtain ⟨passed, -⟩ := receiveFor_spec progress before rfl
    rw [same]
    exact passed.trans (.still rfl rfl)
  · rw [receives.past past]
    exact .still rfl rfl

theorem Receives.passed (receives : Receives wire own deadline out call turn)
    (progress : Progress wire) (count : Nat) : ∀ state, Passed state (call count state).2 := by
  induction count with
  | zero =>
      intro state
      rw [receives.turns.spent]
      exact .still rfl rfl
  | succ count ih =>
      intro state
      rcases receives.turns.step state with ⟨reached, moved, goesOn⟩ | ⟨-, ending, -, stops⟩
      · rw [goesOn]
        exact (receives.spec moved).1.trans (ih reached)
      · have same : (call (count + 1) state).2 = (call 1 state).2 := by
          rw [stops count, stops 0]
        rw [same]
        exact receives.once_passed progress state

/-- A turn leaves the clock by the deadline exactly where its receive was ready. -/
theorem Receives.once_iff (receives : Receives wire own deadline out call turn) {state : Clocked}
    (before : state.time < deadline) :
    (call 1 state).2.time ≤ deadline ↔ Ready wire deadline state := by
  obtain ⟨peer, same⟩ := receives.once before
  rw [same]
  exact receiveFor_time_iff before

/-- Where every receive is ready no turn that is reached is past the deadline. -/
theorem Receives.reached_time (receives : Receives wire own deadline out call turn)
    {state reached : Clocked} (before : state.time < deadline)
    (ready : ∀ reached, ReflTransGen turn state reached → reached.time < deadline →
      Ready wire deadline reached) (reaches : ReflTransGen turn state reached) :
    reached.time ≤ deadline := by
  induction reaches with
  | refl => exact before.le
  | @tail middle reached reachesMiddle moved ih =>
      have soon := receives.before moved
      have ended := (receives.once_iff soon).mpr (ready middle reachesMiddle soon)
      rcases receives.turns.step middle with ⟨other, alsoMoved, goesOn⟩ | ⟨stuck, -⟩
      · rw [goesOn 0, receives.turns.spent, receives.functional alsoMoved moved] at ended
        exact ended
      · exact absurd moved (stuck reached)

theorem Receives.keepsTo_iff (receives : Receives wire own deadline out call turn)
    (progress : Progress wire) (state : Clocked) :
    KeepsTo deadline out call state ↔
      ∀ reached, ReflTransGen turn state reached → reached.time < deadline →
        Ready wire deadline reached := by
  have ends : ∃ enough, ∀ turns ≥ enough, (call turns state).1 ≠ .error out :=
    ⟨state.ahead.length + 1, fun turns enough => receives.turns.ends
      (fun _ _ moved => (receives.spec moved).2) turns state (by omega)⟩
  rcases lt_or_ge state.time deadline with before | past
  · have inTime : KeepsTo deadline out call state ↔
        ∀ turns, (call turns state).2.time ≤ deadline :=
      ⟨fun keeps turns =>
        ((receives.passed progress turns state).inTime_iff before.le).mp (keeps.inTime turns),
        fun inTime => ⟨ends, fun turns =>
          ((receives.passed progress turns state).inTime_iff before.le).mpr (inTime turns)⟩⟩
    rw [inTime, receives.turns.good_iff receives.functional (fun turns state good =>
      (receives.passed progress turns state).time.trans good) state]
    constructor
    · intro good reached reaches soon
      exact (receives.once_iff soon).mp (good reached reaches)
    · intro ready reached reaches
      rcases lt_or_ge reached.time deadline with soon | late
      · exact (receives.once_iff soon).mpr (ready reached reaches soon)
      · rw [receives.past late]
        exact receives.reached_time before ready reaches
  · refine iff_of_true ⟨ends, fun turns => ?_⟩ fun reached reaches soon => ?_
    · rw [receives.past past]
      intro read member
      rw [List.drop_length] at member
      cases member
    · have later : state.time ≤ reached.time := by
        clear soon
        induction reaches with
        | refl => exact le_rfl
        | tail _ moved ih => exact ih.trans (receives.spec moved).1.time
      omega

end Loop

/-! ## The two waits -/

/-- How long a call may wait: its own timeout is scaled, the peer's is scaled already. -/
def allowed (own : Nat) (scaled : Int → Int) (timeout : Option Int) : Int :=
  match timeout with
  | none => own
  | some timeout => scaled timeout

section Waits

variable {wire : Wire} {pings : Pings} {own : Nat} {scaled : Int → Int} {command : String}
  {predicate : Option (Message → Except Raised Bool)} {deadline : Int}

theorem waitUntil_receives (progress : Progress wire)
    (fair : ∀ test ∈ predicate, ∀ message, test message ≠ .error .waiting) :
    Receives wire own deadline (.raised .waiting)
      ((endpoint wire own scaled).waitUntil pings command predicate deadline)
      (WaitTurn wire pings own scaled command predicate deadline) where
  turns := waitUntil_turns progress fair
  functional := WaitTurn.functional
  before := fun turn => turn.1
  spec := WaitTurn.spec progress
  past {state} past turns := by
    cases turns with
    | zero => rfl
    | succ turns =>
        rw [waitUntil_past wire pings own scaled command predicate deadline past]
        rfl
  once := waitUntil_once

theorem drainUntil_receives (progress : Progress wire) :
    Receives wire own deadline (.raised .waiting) ((endpoint wire own scaled).drainUntil deadline)
      (DrainTurn wire own deadline) where
  turns := drainUntil_turns progress
  functional := DrainTurn.functional
  before := fun turn => turn.1
  spec := DrainTurn.spec progress
  past {state} past turns := by
    cases turns with
    | zero => rfl
    | succ turns =>
        rw [drainUntil_past past]
        rfl
  once {state} before := ⟨_, drainUntil_once before⟩

/-- Both calls come to an end, and keep to the deadline fixed when they were called, exactly where
each receive they begin before it is ready. -/
theorem waits_keepTo_iff (progress : Progress wire)
    (fair : ∀ test ∈ predicate, ∀ message, test message ≠ .error .waiting) (timeout : Option Int)
    (state : Clocked) :
    let deadline := state.time + allowed own scaled timeout
    (KeepsTo deadline (.raised .waiting)
        ((endpoint wire own scaled).waitFor pings command predicate timeout) state ↔
      ∀ reached, ReflTransGen (WaitTurn wire pings own scaled command predicate deadline) state
        reached → reached.time < deadline → Ready wire deadline reached) ∧
    (KeepsTo deadline (.raised .waiting)
        ((endpoint wire own scaled).waitForDisconnect timeout) state ↔
      ∀ reached, ReflTransGen (DrainTurn wire own deadline) state reached →
        reached.time < deadline → Ready wire deadline reached) := by
  intro deadline
  have waits (turns : Nat) : (endpoint wire own scaled).waitFor pings command predicate timeout turns
      state = (endpoint wire own scaled).waitUntil pings command predicate deadline turns state := by
    cases timeout with
    | none => rfl
    | some timeout => rfl
  have drains (turns : Nat) : (endpoint wire own scaled).waitForDisconnect timeout turns state =
      (endpoint wire own scaled).drainUntil deadline turns state := by
    cases timeout with
    | none => rfl
    | some timeout => rfl
  constructor
  · rw [← (waitUntil_receives progress fair).keepsTo_iff progress state]
    exact ⟨.of_same waits, .of_same fun turns => (waits turns).symm⟩
  · rw [← (drainUntil_receives progress).keepsTo_iff progress state]
    exact ⟨.of_same drains, .of_same fun turns => (drains turns).symm⟩

end Waits

/-! ## A message that drips in -/

def verack : Message := ⟨Peer.regtestMagic, "verack", []⟩

/-- Three octets of a `verack` come a second before a deadline of ten, and what comes last does
five seconds after it. -/
def dripping (last : Coming) : Clocked where
  peer := Peer.adopt Peer.regtestMagic true []
  schedule := [⟨9, .chunk 0xfa [0xbf, 0xb5]⟩, ⟨15, last⟩]
  time := 0
  timeout := 60
  reads := []

def restOfVerack : Coming :=
  match (PlainWire.wire.serialize verack).drop 3 with
  | [] => .closed
  | first :: rest => .chunk first rest

/-- `wait_for` returns the message and `wait_for_disconnect` returns at the close, both after a
read begun at nine that goes on to fifteen. -/
theorem waits_past_deadline :
    let reads : List Read := [⟨0, 9, some 9⟩, ⟨9, 15, some 15⟩]
    let waits := (endpoint PlainWire.wire 60 id).waitFor Link.plainPings "verack" none (some 10)
    let drains := (endpoint PlainWire.wire 60 id).waitForDisconnect (some 10)
    ((waits 1 (dripping restOfVerack)).1 = .ok verack ∧
        (waits 1 (dripping restOfVerack)).2.reads = reads ∧
        ¬ KeepsTo 10 (.raised .waiting) waits (dripping restOfVerack)) ∧
      (drains 1 (dripping .closed)).1 = .ok () ∧ (drains 1 (dripping .closed)).2.reads = reads ∧
        ¬ KeepsTo 10 (.raised .waiting) drains (dripping .closed) := by
  intro reads waits drains
  have waited : (waits 1 (dripping restOfVerack)).2.reads = reads := by decide +kernel
  have drained : (drains 1 (dripping .closed)).2.reads = reads := by decide +kernel
  have late {reached : Clocked} {last : Coming} (made : reached.reads = reads)
      (inTime : InTime 10 (dripping last) reached) : False := by
    unfold InTime at inTime
    rw [made] at inTime
    exact absurd (inTime ⟨9, 15, some 15⟩ (List.mem_cons_of_mem _ List.mem_cons_self)).1 (by decide)
  refine ⟨⟨by decide +kernel, waited, fun keeps => late waited (keeps.inTime 1)⟩,
    by decide +kernel, drained, fun keeps => late drained (keeps.inTime 1)⟩

theorem plainWire_progress : Progress PlainWire.wire := by
  intro octets message length parsed
  unfold PlainWire.wire at parsed
  dsimp only at parsed
  split at parsed
  · cases parsed
  · rename_i enough
    split at parsed
    · cases parsed
    · split at parsed
      · cases parsed
        omega
      · cases parsed

/-- The octets are there when the call begins, and nothing comes before its deadline. -/
def stalled : Clocked :=
  { dripping restOfVerack with schedule := [⟨0, .chunk 0xfa [0xbf, 0xb5]⟩, ⟨15, restOfVerack⟩] }

theorem waits_keepTo_stalled :
    KeepsTo 10 (.raised .waiting) ((endpoint PlainWire.wire 60 id).waitFor Link.plainPings "verack"
        none (some 10)) stalled ∧
      KeepsTo 10 (.raised .waiting) ((endpoint PlainWire.wire 60 id).waitForDisconnect (some 10))
        stalled := by
  obtain ⟨waits, drains⟩ := @waits_keepTo_iff PlainWire.wire Link.plainPings 60 id "verack" none
    plainWire_progress nofun (some 10) stalled
  have ready : Ready PlainWire.wire 10 stalled := .inr (by decide)
  have timesOut : (receiveFor PlainWire.wire 60 (10 - stalled.time) stalled).1 =
      .error .timeoutError := by decide +kernel
  have noMessage {message : Message} {read : Clocked} (received :
      receiveFor PlainWire.wire 60 (10 - stalled.time) stalled = (.ok message, read)) : False := by
    rw [received] at timesOut
    cases timesOut
  refine ⟨waits.mpr fun reached reaches _ => ?_, drains.mpr fun reached reaches _ => ?_⟩
  · rcases ReflTransGen.cases_head reaches with rfl | ⟨next, ⟨-, message, read, received, -⟩, -⟩
    · exact ready
    · exact (noMessage received).elim
  · rcases ReflTransGen.cases_head reaches with rfl | ⟨next, ⟨-, message, received⟩, -⟩
    · exact ready
    · exact (noMessage received).elim

end Clocked

end BitcoinNodeTests
