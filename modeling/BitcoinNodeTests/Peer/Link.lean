import BitcoinNodeTests.Peer.WaitFor

/-!
# A peer and a node that processes its messages in order

The messages in flight both ways, and what the node still owes.  Between any two things the
peer does the node makes the moves its schedule says: process the next message, send one of
the pongs it owes, or send a message of its own.
-/

set_option autoImplicit false

namespace BitcoinNodeTests

open Foundation

/-- A pong the node has yet to send: the nonce of the ping, and the ping's place among the
messages the node processed. -/
structure Owed where
  nonce : UInt64
  place : Nat
  deriving DecidableEq, Repr

/-- A message on its way to the peer, a pong with the place of the ping it answers. -/
structure Queued where
  message : Message
  answering : Option Nat
  deriving DecidableEq, Repr

inductive NodeMove where
  | process
  | answer (index : Nat)
  | say (message : Message)
  deriving DecidableEq, Repr

/-- What happens while the peer makes one call, and what the call is interrupted by. -/
structure NodeTurn where
  moves : List NodeMove
  elapsed : Nat
  interruption : Option Raised
  deriving DecidableEq, Repr

structure Link where
  magic : List Octet
  toNode : List Message
  processed : List Message
  owed : List Owed
  toPeer : List Queued
  time : Int
  secret : Nat
  schedule : List NodeTurn
  sent : List Message
  met : List Queued
  deriving DecidableEq, Repr

namespace Link

variable (pings : Pings)

def IsPing (nonce : UInt64) (message : Message) : Prop :=
  message.command = "ping" ∧ pings.parsePing message.payload = some nonce

def IsPong (nonce : UInt64) (message : Message) : Prop :=
  message.command = "pong" ∧ pings.parsePong message.payload = some nonce

instance (nonce : UInt64) (message : Message) : Decidable (IsPing pings nonce message) :=
  inferInstanceAs (Decidable (_ ∧ _))

instance (nonce : UInt64) (message : Message) : Decidable (IsPong pings nonce message) :=
  inferInstanceAs (Decidable (_ ∧ _))

/-! ## The node -/

def owes (place : Nat) (message : Message) : Option Owed :=
  if message.command = "ping" then
    (pings.parsePing message.payload).map fun nonce => ⟨nonce, place⟩
  else none

def process (link : Link) : Link :=
  match link.toNode with
  | [] => link
  | message :: rest =>
      { link with
        toNode := rest
        processed := link.processed ++ [message]
        owed := link.owed ++ (owes pings link.processed.length message).toList }

def answer (index : Nat) (link : Link) : Link :=
  match link.owed[index]? with
  | none => link
  | some owed =>
      { link with
        owed := link.owed.eraseIdx index
        toPeer := link.toPeer ++
          [⟨⟨link.magic, "pong", pings.pong owed.nonce⟩, some owed.place⟩] }

/-- Any message but a pong is the node's to send when it likes. -/
def say (message : Message) (link : Link) : Link :=
  if message.command = "pong" then link
  else { link with toPeer := link.toPeer ++ [⟨message, none⟩] }

def move (link : Link) : NodeMove → Link
  | .process => link.process pings
  | .answer index => link.answer pings index
  | .say message => link.say message

/-! ## The peer -/

/-- The link once the node has made the moves that come while a call is made. -/
def afterMoves (turn : NodeTurn) (link : Link) : Link :=
  { turn.moves.foldl (move pings) link with time := link.time + turn.elapsed }

/-- What comes before a call's own effect, which an interruption prevents. -/
def takeTurn : Action Link Raised Unit := fun link =>
  match link.schedule with
  | [] => (.ok (), link)
  | turn :: later =>
      let reached := { link.afterMoves pings turn with schedule := later }
      match turn.interruption with
      | none => (.ok (), reached)
      | some error => (.error error, reached)

def nextMessage : Action Link Raised Message := fun link =>
  match link.toPeer with
  | [] => (.error .timeoutError, link)
  | next :: rest => (.ok next.message, { link with toPeer := rest, met := link.met ++ [next] })

def push (command : String) (payload : List Octet) (link : Link) : Link :=
  { link with
    toNode := link.toNode ++ [⟨link.magic, command, payload⟩]
    sent := link.sent ++ [⟨link.magic, command, payload⟩] }

/-- The peer's end of the link, at waits its caller chooses. -/
def endpoint (timeout : Int) (scaled : Int → Int) : Endpoint Link where
  receive _ := do
    takeTurn pings
    nextMessage
  send command payload := do
    takeTurn pings
    Action.update (push command payload)
  monotonic := Action.read time
  randbelow bound := Action.read fun link => link.secret % bound
  timeout := timeout
  scaled := scaled

def nonce (link : Link) : UInt64 := UInt64.ofNat (link.secret % (2 ^ 64 - 1) + 1)

def twoPings (link : Link) : List Message :=
  [⟨link.magic, "ping", pings.ping 0⟩, ⟨link.magic, "ping", pings.ping link.nonce⟩]

def secondPing (link : Link) : Nat := link.processed.length + link.toNode.length + 1

/-- What the peer owes for a message it met. -/
def answerTo (link : Link) (met : Queued) : Option Message :=
  if met.message.command = "ping" then
    (pings.parsePing met.message.payload).map fun nonce =>
      ⟨link.magic, "pong", pings.pong nonce⟩
  else none

/-- No earlier ping of the nonce is unprocessed or unanswered. -/
def NoneUnanswered (link : Link) : Prop :=
  (∀ message ∈ link.toNode, ¬ IsPing pings link.nonce message) ∧
    ∀ owed ∈ link.owed, owed.nonce ≠ link.nonce

/-- No pong of the nonce is on its way. -/
def NoneUnread (link : Link) : Prop :=
  ∀ queued ∈ link.toPeer, ¬ IsPong pings link.nonce queued.message

instance (link : Link) : Decidable (link.NoneUnanswered pings) :=
  inferInstanceAs (Decidable (_ ∧ _))

instance (link : Link) : Decidable (link.NoneUnread pings) :=
  inferInstanceAs (Decidable (∀ _ ∈ _, _))

end Link

end BitcoinNodeTests
