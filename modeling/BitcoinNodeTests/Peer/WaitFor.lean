import BitcoinNodeTests.Peer.Connection

/-!
# Waiting for a message

`wait_for` and `sync_with_ping`, over whatever a peer reads, sends and draws from.  Reading
and sending whole messages is `Endpoint`'s part; the payloads of `ping` and `pong` are
btclib's and come in as `Pings`.
-/

set_option autoImplicit false

namespace BitcoinNodeTests

open Foundation

/-- `btclib.p2p.Ping` and `Pong`: the payload of a nonce, and the nonce parsed of one. -/
structure Pings where
  ping : UInt64 → List Octet
  pong : UInt64 → List Octet
  parsePing : List Octet → Option UInt64
  parsePong : List Octet → Option UInt64

/-- Parsing finds the nonce that was written. -/
structure PingLaws (pings : Pings) : Prop where
  parse_ping : ∀ nonce, pings.parsePing (pings.ping nonce) = some nonce
  parse_pong : ∀ nonce, pings.parsePong (pings.pong nonce) = some nonce

/-- What `wait_for` raises: its own `TimeoutError`, or what a call it makes raised. -/
inductive WaitRaised where
  | timeoutError (text : String)
  | raised (error : Raised)
  deriving DecidableEq, Repr

/-- A peer as a wait sees it: its reads, at a timeout, its sends and the clock and the
secrets it draws from. -/
structure Endpoint (σ : Type) where
  receive : Int → Action σ Raised Message
  send : String → List Octet → Action σ Raised Unit
  monotonic : Action σ Raised Int
  randbelow : Nat → Action σ Raised Nat
  timeout : Int
  scaled : Int → Int

namespace Endpoint

variable {σ : Type} (pings : Pings) (endpoint : Endpoint σ)

def lift {α : Type} (action : Action σ Raised α) : Action σ WaitRaised α := fun state =>
  match action state with
  | (.ok value, reached) => (.ok value, reached)
  | (.error error, reached) => (.error (.raised error), reached)

/-- A `receive` whose `TimeoutError` ends the wait. -/
def receiveWithin (remaining : Int) : Action σ WaitRaised (Option Message) := fun state =>
  match endpoint.receive remaining state with
  | (.ok message, reached) => (.ok (some message), reached)
  | (.error .timeoutError, reached) => (.ok none, reached)
  | (.error error, reached) => (.error (.raised error), reached)

def answerPing (message : Message) : Action σ WaitRaised Unit :=
  if message.command = "ping" then
    match pings.parsePing message.payload with
    | some nonce => lift (endpoint.send "pong" (pings.pong nonce))
    | none => Action.raise (.raised .btclibValueError)
  else pure ()

/-- `message.command == command and (predicate is None or predicate(message))` -/
def awaited (command : String) (predicate : Option (Message → Except Raised Bool))
    (message : Message) : Except Raised Bool :=
  if message.command = command then
    match predicate with
    | none => .ok true
    | some predicate => predicate message
  else .ok false

def neverSaw {α : Type} (command : String) : Action σ WaitRaised α :=
  Action.raise (.timeoutError s!"never saw '{command}' within the wait")

/-- `wait_for`'s loop, which makes as many turns as it is given at most. -/
def waitUntil (command : String) (predicate : Option (Message → Except Raised Bool))
    (deadline : Int) : Nat → Action σ WaitRaised Message
  | 0 => Action.raise (.raised .waiting)
  | turns + 1 => do
      let time ← lift endpoint.monotonic
      if deadline - time ≤ 0 then neverSaw command
      else
        let read ← endpoint.receiveWithin (deadline - time)
        match read with
        | none => neverSaw command
        | some message => do
            endpoint.answerPing pings message
            match awaited command predicate message with
            | .error error => Action.raise (.raised error)
            | .ok true => pure message
            | .ok false => waitUntil command predicate deadline turns

def waitFor (command : String) (predicate : Option (Message → Except Raised Bool))
    (timeout : Option Int) (turns : Nat) : Action σ WaitRaised Message := do
  let time ← lift endpoint.monotonic
  let wait := match timeout with
    | none => endpoint.timeout
    | some timeout => endpoint.scaled timeout
  endpoint.waitUntil pings command predicate (time + wait) turns

/-- `lambda m: Pong.parse(m.payload).nonce == nonce` -/
def isPongOf (nonce : UInt64) (message : Message) : Except Raised Bool :=
  match pings.parsePong message.payload with
  | some other => .ok (other = nonce)
  | none => .error .btclibValueError

def syncWithPing (timeout : Option Int) (turns : Nat) : Action σ WaitRaised Unit := do
  let drawn ← lift (endpoint.randbelow (2 ^ 64 - 1))
  let nonce := UInt64.ofNat (drawn + 1)
  lift (endpoint.send "ping" (pings.ping 0))
  lift (endpoint.send "ping" (pings.ping nonce))
  let _ ← endpoint.waitFor pings "pong" (some (isPongOf pings nonce)) timeout turns
  pure ()

end Endpoint

end BitcoinNodeTests
