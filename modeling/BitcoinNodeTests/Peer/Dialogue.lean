import BitcoinNodeTests.Foundation.Resume
import BitcoinNodeTests.Peer.Handshake

/-!
# Two peers on one connection

Each side runs `_v2_handshake` and then the calls of its own script.  What a side has done is
what its program does on the octets delivered to it so far; a step delivers to one side some
more of what the other has sent, in one chunk of any length.
-/

set_option autoImplicit false

namespace BitcoinNodeTests

open Foundation

inductive Op where
  | send (command : String) (payload : List Octet) (isDecoy : Bool)
  | receive
  deriving DecidableEq, Repr

/-- A peer, the messages its calls of `receive` returned and those it sent, decoys apart. -/
structure Talker where
  peer : Peer
  returned : List Message
  said : List Message

namespace Talker

def onPeer {α : Type} : Action Peer Raised α → Action Talker Raised α :=
  Action.onPart Talker.peer fun reached talker => { talker with peer := reached }

def perform (wire : Wire) : Op → Action Talker Raised Unit
  | .send command payload isDecoy => do
      onPeer (Peer.send wire command payload isDecoy)
      Action.update fun talker =>
        if isDecoy then talker
        else { talker with said := talker.said ++ [⟨talker.peer.magic, command, payload⟩] }
  | .receive => do
      let message ← onPeer (Peer.receive wire)
      Action.update fun talker => { talker with returned := talker.returned ++ [message] }

def performAll (wire : Wire) : List Op → Action Talker Raised Unit
  | [] => pure ()
  | op :: rest => do
      perform wire op
      performAll wire rest

end Talker

structure Chunk where
  first : Octet
  rest : List Octet
  deriving DecidableEq, Repr

def Chunk.octets (chunk : Chunk) : List Octet := chunk.first :: chunk.rest

def Chunk.arrival (chunk : Chunk) : Arrival Octet := .chunk chunk.first chunk.rest

/-- The two sides: `true` is the one that dialled, `false` the one that accepted. -/
structure Dialogue where
  wire : Wire
  newCipher : NewCipher
  magic : List Octet
  secrets : Bool → Secrets
  script : Bool → List Op

abbrev Delivered : Type := Bool → List Chunk

namespace Dialogue

variable (dialogue : Dialogue)

def cipher (side : Bool) : Cipher :=
  dialogue.newCipher (dialogue.secrets side).prvKey (dialogue.secrets side).ellOurs
    (dialogue.secrets !side).ellOurs side dialogue.magic

def adopted (side : Bool) (chunks : List Chunk) : Peer :=
  Peer.adopt dialogue.magic side (chunks.map Chunk.arrival)

def handshake (side : Bool) (chunks : List Chunk) : Except Raised Unit × Peer :=
  Peer.v2Handshake dialogue.wire dialogue.newCipher (dialogue.secrets side)
    (dialogue.adopted side chunks)

def program (side : Bool) : Action Talker Raised Unit := do
  Talker.onPeer (Peer.v2Handshake dialogue.wire dialogue.newCipher (dialogue.secrets side))
  Talker.performAll dialogue.wire (dialogue.script side)

def ran (side : Bool) (chunks : List Chunk) : Except Raised Unit × Talker :=
  dialogue.program side ⟨dialogue.adopted side chunks, [], []⟩

def sent (state : Delivered) (side : Bool) : List Octet :=
  (dialogue.ran side (state side)).2.peer.sent

/-- Of what the other side has sent, a side is delivered the octets next in order. -/
def Deliverable (state : Delivered) (side : Bool) (chunk : Chunk) : Prop :=
  (state side).flatMap Chunk.octets ++ chunk.octets <+: dialogue.sent state !side

def deliver (state : Delivered) (side : Bool) (chunk : Chunk) : Delivered :=
  Function.update state side (state side ++ [chunk])

/-- The states of the connection, from nothing delivered. -/
inductive Reachable : Delivered → Prop
  | start : Reachable fun _ => []
  | deliver {state : Delivered} {side : Bool} {chunk : Chunk} (before : Reachable state)
      (next : dialogue.Deliverable state side chunk) :
      Reachable (deliver state side chunk)

def Completed (state : Delivered) (side : Bool) : Prop :=
  ∃ ready, dialogue.handshake side (state side) = (.ok (), ready)

end Dialogue

end BitcoinNodeTests
