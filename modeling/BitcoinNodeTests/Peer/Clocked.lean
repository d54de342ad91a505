import BitcoinNodeTests.Peer.Receive
import BitcoinNodeTests.Foundation.Resume
import BitcoinNodeTests.Peer.WaitFor

/-!
# A connection whose reads take time

The same reading of messages, each read given a clock: begun at a time it answers what has come by
then or comes within the socket's timeout, when it comes, and it raises `TimeoutError` at the end
of the timeout otherwise.  Nothing but a read takes time.  Every read made is kept in `reads`.
-/

set_option autoImplicit false

namespace BitcoinNodeTests

open Foundation

/-- What comes over a connection: octets, the node's close or its reset. -/
inductive Coming where
  | chunk (first : Octet) (rest : List Octet)
  | closed
  | reset
  deriving DecidableEq, Repr

structure Due where
  time : Int
  coming : Coming
  deriving DecidableEq, Repr

structure Read where
  started : Int
  ended : Int
  arrived : Option Int
  deriving DecidableEq, Repr

/-- A peer on its clock.  What comes is in the schedule: the peer's own arrivals are not read. -/
structure Clocked where
  peer : Peer
  schedule : List Due
  time : Int
  timeout : Nat
  reads : List Read

def Coming.arrival : Coming → Arrival Octet
  | .chunk first rest => .chunk first rest
  | .closed => .closed
  | .reset => .reset

def Due.arrival (due : Due) : Arrival Octet := due.coming.arrival

namespace Clocked

/-- What a read leaves of a chunk has come when the chunk has. -/
def putBack (time : Int) : List Octet → List Due → List Due
  | [], later => later
  | first :: rest, later => ⟨time, .chunk first rest⟩ :: later

def endRead (ended : Int) (arrived : Option Int) (later : List Due) (state : Clocked) : Clocked :=
  { state with
    time := ended
    schedule := later
    reads := state.reads ++ [⟨state.time, ended, arrived⟩] }

def recv : Action Clocked Raised (List Octet) := fun state =>
  let limit := state.time + state.timeout
  match state.schedule with
  | [] => (.error .timeoutError, endRead limit none [] state)
  | due :: later =>
      if limit < due.time then (.error .timeoutError, endRead limit none (due :: later) state)
      else
        let ended := max state.time due.time
        match due.coming with
        | .chunk first rest =>
            (.ok (first :: rest.take (RECV_SIZE - 1)), endRead ended (some due.time)
              (putBack due.time (rest.drop (RECV_SIZE - 1)) later) state)
        | .closed => (.ok [], endRead ended (some due.time) (due :: later) state)
        | .reset => (.error .connectionReset, endRead ended (some due.time) later state)

def recvMore : Action Clocked Raised Unit := do
  let chunk ← recv
  if chunk = [] then Action.raise (.connectionError "connection closed while waiting for a message")
  else Action.update fun state =>
    { state with peer := { state.peer with buffer := state.peer.buffer ++ chunk } }

def weight (state : Clocked) : Nat := Arrival.weight (state.schedule.map Due.arrival)

theorem map_putBack (time : Int) (back : List Octet) (later : List Due) :
    (putBack time back later).map Due.arrival = Arrival.putBack back (later.map Due.arrival) := by
  cases back with
  | nil => rfl
  | cons first rest => rfl

theorem recv_ok {state reached : Clocked} {chunk : List Octet}
    (run : recv state = (.ok chunk, reached)) :
    ∃ due later, state.schedule = due :: later ∧ due.time ≤ state.time + state.timeout ∧
      ((∃ first rest, due.coming = .chunk first rest ∧ chunk = first :: rest.take (RECV_SIZE - 1) ∧
          reached = endRead (max state.time due.time) (some due.time)
            (putBack due.time (rest.drop (RECV_SIZE - 1)) later) state) ∨
        due.coming = .closed ∧ chunk = [] ∧
          reached = endRead (max state.time due.time) (some due.time) (due :: later) state) := by
  unfold recv at run
  cases isSchedule : state.schedule with
  | nil =>
      rw [isSchedule] at run
      cases run
  | cons due later =>
      simp only [isSchedule] at run
      refine ⟨due, later, rfl, ?_⟩
      split at run
      · cases run
      · rename_i soon
        refine ⟨not_lt.mp soon, ?_⟩
        cases comes : due.coming with
        | chunk first rest =>
            rw [comes] at run
            cases run
            exact .inl ⟨first, rest, rfl, rfl, rfl⟩
        | closed =>
            rw [comes] at run
            cases run
            exact .inr ⟨rfl, rfl, rfl⟩
        | reset =>
            rw [comes] at run
            cases run

theorem recvMore_ok {state reached : Clocked} (run : recvMore state = (.ok (), reached)) :
    ∃ taken, Arrival.recv RECV_SIZE (state.schedule.map Due.arrival) =
        (.octets taken, reached.schedule.map Due.arrival) ∧
      reached.peer = { state.peer with buffer := state.peer.buffer ++ taken } := by
  obtain ⟨chunk, read, received, rest⟩ := Action.bind_ok_iff.mp run
  obtain ⟨due, later, isSchedule, -, ⟨first, body, comes, rfl, rfl⟩ | ⟨-, rfl, -⟩⟩ :=
    recv_ok received
  · rw [if_neg nofun] at rest
    cases rest
    refine ⟨first :: body.take (RECV_SIZE - 1), ?_, rfl⟩
    rw [isSchedule]
    simp only [List.map_cons, Due.arrival, comes, Coming.arrival, Arrival.recv, endRead]
    rw [map_putBack]
  · rw [if_pos rfl] at rest
    cases rest

theorem recvMore_weight {state reached : Clocked} (run : recvMore state = (.ok (), reached)) :
    reached.weight < state.weight := by
  obtain ⟨taken, received, -⟩ := recvMore_ok run
  exact (Arrival.recv_octets received).2.2.2

def readUntil {β : Type} (reader : Reader Octet β Raised) : Action Clocked Raised β := fun state =>
  match reader state.peer.buffer with
  | .done value rest => (.ok value, { state with peer := { state.peer with buffer := rest } })
  | .refuse error => (.error error, state)
  | .more =>
      match _run : recvMore state with
      | (.ok (), reached) => readUntil reader reached
      | (.error error, reached) => (.error error, reached)
termination_by state => state.weight
decreasing_by exact recvMore_weight ‹_›

theorem readUntil_turn {β : Type} (reader : Reader Octet β Raised) (state : Clocked) :
    readUntil reader state = match reader state.peer.buffer with
      | .done value rest => (.ok value, { state with peer := { state.peer with buffer := rest } })
      | .refuse error => (.error error, state)
      | .more => (recvMore >>= fun _ => readUntil reader) state := by
  rw [readUntil]
  cases reader state.peer.buffer with
  | done value rest => rfl
  | refuse error => rfl
  | more =>
      rw [Action.bind_apply]
      dsimp only
      split
      · rename_i run
        rw [run]
      · rename_i run
        rw [run]

def ahead (state : Clocked) : List Octet :=
  state.peer.buffer ++ Arrival.octets (state.schedule.map Due.arrival)

theorem recvMore_ahead {state reached : Clocked} (run : recvMore state = (.ok (), reached)) :
    reached.ahead = state.ahead := by
  obtain ⟨taken, received, peer⟩ := recvMore_ok run
  rw [ahead, ahead, peer, (Arrival.recv_octets received).1, List.append_assoc]

/-- What every turn of a loop over the buffer keeps, the loop keeps. -/
theorem readUntil_rec {β : Type} {reader : Reader Octet β Raised} {holds : Clocked → Prop}
    (decides : ∀ state, reader state.peer.buffer ≠ .more → holds state)
    (reads : ∀ state, reader state.peer.buffer = .more →
      (∀ reached, recvMore state = (.ok (), reached) → holds reached) → holds state)
    (state : Clocked) : holds state := by
  induction size : state.weight using Nat.strong_induction_on generalizing state with
  | _ weight ih =>
      subst size
      by_cases more : reader state.peer.buffer = .more
      · exact reads state more fun reached run => ih _ (recvMore_weight run) reached rfl
      · exact decides state more

/-- A loop that returned found its value in the octets there were, and left the others. -/
theorem readUntil_ok {β : Type} {reader : Reader Octet β Raised} {reached : Clocked} {value : β}
    (state : Clocked) : readUntil reader state = (.ok value, reached) →
      ∃ held, held ++ Arrival.octets (reached.schedule.map Due.arrival) = state.ahead ∧
        reader held = .done value reached.peer.buffer ∧
        reached.peer = { state.peer with buffer := reached.peer.buffer } := by
  induction state using @readUntil_rec _ reader with
  | decides state decided =>
      intro run
      rw [readUntil_turn] at run
      cases verdict : reader state.peer.buffer with
      | done found rest =>
          rw [verdict] at run
          cases run
          exact ⟨state.peer.buffer, rfl, verdict, rfl⟩
      | refuse error =>
          rw [verdict] at run
          cases run
      | more => exact absurd verdict decided
  | reads state more ih =>
      intro run
      rw [readUntil_turn, more] at run
      obtain ⟨⟨⟩, middle, received, rest⟩ := Action.bind_ok_iff.mp run
      obtain ⟨held, whole, verdict, same⟩ := ih middle received rest
      obtain ⟨taken, -, peer⟩ := recvMore_ok received
      rw [recvMore_ahead received] at whole
      rw [peer] at same
      exact ⟨held, whole, verdict, same⟩

/-! ## Receiving messages -/

def onPeer {α : Type} (action : Action Peer Raised α) : Action Clocked Raised α :=
  Action.onPart Clocked.peer (fun peer state => { state with peer := peer }) action

theorem onPeer_ahead {α : Type} {action : Action Peer Raised α} {state reached : Clocked}
    {result : Except Raised α} (keeps : ∀ peer, (action peer).2.buffer = peer.buffer)
    (run : onPeer action state = (result, reached)) : reached.ahead = state.ahead := by
  rw [onPeer, Action.onPart_apply] at run
  cases run
  rw [ahead, ahead, keeps]

theorem take_ok {size : Nat} {state reached : Clocked} {taken : List Octet}
    (run : readUntil (Peer.takeReader size) state = (.ok taken, reached)) :
    reached.ahead.length + size = state.ahead.length := by
  obtain ⟨held, whole, verdict, -⟩ := readUntil_ok state run
  unfold Peer.takeReader at verdict
  split at verdict
  · cases verdict
  · rename_i enough
    simp only [Verdict.done.injEq] at verdict
    rw [← whole, ahead, ← verdict.2, List.length_append, List.length_append, List.length_drop]
    omega

/-- The peer on its clock, its octets read at their times. -/
def intake : Intake Clocked where
  peer := Clocked.peer
  ahead := ahead
  onPeer := onPeer
  readUntil := readUntil
  takes := take_ok
  keeps same run := onPeer_ahead (fun peer => (same peer).1) run

def receive (wire : Wire) : Action Clocked Raised Message := intake.receive wire

/-- `receive`, which puts back the peer's own timeout; a socket takes none that is negative. -/
def receiveFor (wire : Wire) (own : Nat) (timeout : Int) : Action Clocked Raised Message :=
  if timeout < 0 then Action.raise (.valueError "Timeout value out of range")
  else do
    Action.update fun state => { state with timeout := timeout.toNat }
    Action.ensuring (receive wire) fun state => { state with timeout := own }

def monotonic : Action Clocked Raised Int := Action.read Clocked.time

/-- The peer on its clock as a wait sees it; `wait_for` draws no secret. -/
def endpoint (wire : Wire) (own : Nat) (scaled : Int → Int) : Endpoint Clocked where
  receive timeout := receiveFor wire own timeout
  send command payload := onPeer (Peer.send wire command payload false)
  monotonic := monotonic
  randbelow _ := Action.raise .waiting
  timeout := own
  scaled := scaled

end Clocked

end BitcoinNodeTests
