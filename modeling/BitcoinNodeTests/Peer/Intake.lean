import BitcoinNodeTests.Peer.Connection

/-!
# Reading messages off a connection

`_receive` over both transports, whatever the octets are read from.  On v1 the parse restarts
from the buffer after every chunk; on v2 the length of the packet being read is decrypted once
and kept in `contentsLen`, and the received garbage in `aad`, until the packet's ciphertext is
whole.
-/

set_option autoImplicit false

namespace BitcoinNodeTests

open Foundation

namespace Peer

def magicMismatch (head magic : List Octet) : Raised :=
  .valueError s!"magic bytes mismatch: {hex head} instead of {hex magic}"

def messageReader (wire : Wire) (magic : List Octet) : Reader Octet Message Raised := fun buffer =>
  let head := buffer.take magic.length
  if head.length = magic.length ∧ head ≠ magic then
    .refuse (magicMismatch head magic)
  else
    match wire.parse buffer with
    | .whole message length => .done message (buffer.drop length)
    | .incomplete => .more
    | .refused => .refuse .btclibValueError

/-- The length of the packet being read, decrypted once and kept. -/
def keepLength (cipher : Cipher) (octets : List Octet) : Action Peer Raised Nat := do
  let length ← Action.read fun peer => cipher.decryptLength peer.calls octets
  Action.update fun peer =>
    { peer with
      contentsLen := some length
      calls := peer.calls ++ [.decryptLength octets] }
  pure length

/-- Authenticate and decrypt a whole ciphertext, with the received garbage where it
is the first packet after it. -/
def decrypt (cipher : Cipher) (ciphertext : List Octet) : Action Peer Raised (List Octet × Bool) := do
  let answer ← Action.read fun peer => cipher.decrypt peer.calls ciphertext peer.aad
  Action.update fun peer =>
    { peer with
      contentsLen := none
      aad := []
      calls := peer.calls ++ [.decrypt ciphertext peer.aad] }
  match answer with
  | some packet => pure packet
  | none => Action.raise .btclibValueError

def count (message : Message) (peer : Peer) : Peer :=
  { peer with
    messageCount := Function.update peer.messageCount message.command
      (peer.messageCount message.command + 1)
    lastMessage := Function.update peer.lastMessage message.command (some message) }

theorem keepLength_same (cipher : Cipher) (octets : List Octet) (peer : Peer) :
    (keepLength cipher octets peer).2.buffer = peer.buffer ∧
      (keepLength cipher octets peer).2.arrivals = peer.arrivals :=
  ⟨rfl, rfl⟩

theorem decrypt_same (cipher : Cipher) (ciphertext : List Octet) (peer : Peer) :
    (decrypt cipher ciphertext peer).2.buffer = peer.buffer ∧
      (decrypt cipher ciphertext peer).2.arrivals = peer.arrivals := by
  simp only [decrypt, Action.read_bind, Action.update_bind]
  cases cipher.decrypt peer.calls ciphertext peer.aad with
  | none => exact ⟨rfl, rfl⟩
  | some packet => exact ⟨rfl, rfl⟩

end Peer

/-- Where a peer's octets are read from: the peer within a state, what acts on it and reads
nothing, and a loop over its buffer.  A take is of octets ahead, and nothing else loses any. -/
structure Intake (σ : Type) where
  peer : σ → Peer
  ahead : σ → List Octet
  onPeer : ∀ {α : Type}, Action Peer Raised α → Action σ Raised α
  readUntil : ∀ {β : Type}, Reader Octet β Raised → Action σ Raised β
  takes : ∀ {size : Nat} {state reached : σ} {octets : List Octet},
    readUntil (Peer.takeReader size) state = (.ok octets, reached) →
      (ahead reached).length + size = (ahead state).length
  keeps : ∀ {α : Type} {action : Action Peer Raised α} {state reached : σ}
    {result : Except Raised α},
    (∀ peer, (action peer).2.buffer = peer.buffer ∧ (action peer).2.arrivals = peer.arrivals) →
      onPeer action state = (result, reached) → ahead reached = ahead state

namespace Intake

section Functions

variable {σ : Type} (intake : Intake σ) (wire : Wire) (cipher : Cipher)

def take (size : Nat) : Action σ Raised (List Octet) := intake.readUntil (Peer.takeReader size)

def receiveV1 : Action σ Raised Message := do
  let magic ← Action.read fun state => (intake.peer state).magic
  intake.readUntil (Peer.messageReader wire magic)

/-- `self._contents_len = cipher.decrypt_length(self._take(LENGTH_LEN))` -/
def decryptLength : Action σ Raised Nat := do
  let octets ← intake.take LENGTH_LEN
  intake.onPeer (Peer.keepLength cipher octets)

/-- The ciphertext of a packet whose length is known. -/
def body (length : Nat) : Action σ Raised (List Octet × Bool) := do
  let ciphertext ← intake.take (HEADER_LEN + length + TAG_LEN)
  intake.onPeer (Peer.decrypt cipher ciphertext)

def receivePacket : Action σ Raised (List Octet × Bool) := do
  let pending ← Action.read fun state => (intake.peer state).contentsLen
  let length ← match pending with
    | some length => pure length
    | none => intake.decryptLength cipher
  intake.body cipher length

variable {intake cipher}

/-- A packet begun is finished from the length kept. -/
theorem receivePacket_of_some {state : σ} {length : Nat}
    (pending : (intake.peer state).contentsLen = some length) :
    intake.receivePacket cipher state = intake.body cipher length state := by
  simp only [receivePacket, Action.read_bind, pending, Action.pure_bind_apply]

/-- A packet not begun has its length decrypted first. -/
theorem receivePacket_of_none {state : σ} (pending : (intake.peer state).contentsLen = none) :
    intake.receivePacket cipher state =
      (intake.decryptLength cipher >>= intake.body cipher) state := by
  simp only [receivePacket, Action.read_bind, pending]

theorem decryptLength_takes {state reached : σ} {length : Nat}
    (run : intake.decryptLength cipher state = (.ok length, reached)) :
    (intake.ahead reached).length + LENGTH_LEN = (intake.ahead state).length := by
  obtain ⟨octets, taken, takeRun, rest⟩ := Action.bind_ok_iff.mp run
  rw [intake.keeps (Peer.keepLength_same cipher octets) rest]
  exact intake.takes takeRun

theorem body_takes {state reached : σ} {length : Nat} {answer : List Octet × Bool}
    (run : intake.body cipher length state = (.ok answer, reached)) :
    (intake.ahead reached).length + (HEADER_LEN + length + TAG_LEN) =
      (intake.ahead state).length := by
  obtain ⟨ciphertext, taken, takeRun, rest⟩ := Action.bind_ok_iff.mp run
  rw [intake.keeps (Peer.decrypt_same cipher ciphertext) rest]
  exact intake.takes takeRun

/-- A packet read leaves fewer octets ahead. -/
theorem receivePacket_shrinks {state reached : σ} {answer : List Octet × Bool}
    (run : intake.receivePacket cipher state = (.ok answer, reached)) :
    (intake.ahead reached).length < (intake.ahead state).length := by
  cases pending : (intake.peer state).contentsLen with
  | some length =>
      rw [receivePacket_of_some pending] at run
      have shorter := body_takes run
      rw [HEADER_LEN] at shorter
      omega
  | none =>
      rw [receivePacket_of_none pending] at run
      obtain ⟨length, middle, lengthRun, bodyRun⟩ := Action.bind_ok_iff.mp run
      have first := decryptLength_takes lengthRun
      have shorter := body_takes bodyRun
      rw [HEADER_LEN] at shorter
      omega

variable (intake cipher)

/-- `_receive_v2`: decoys, and packets whose contents `message_from_contents` refuses, are
dropped. -/
def receiveV2 : Action σ Raised Message := fun state =>
  match _run : intake.receivePacket cipher state with
  | (.error error, reached) => (.error error, reached)
  | (.ok (contents, ignore), reached) =>
      if ignore then receiveV2 reached
      else
        match wire.messageFromContents contents with
        | none => receiveV2 reached
        | some (command, payload) =>
            (.ok ⟨(intake.peer reached).magic, command, payload⟩, reached)
termination_by state => (intake.ahead state).length
decreasing_by all_goals exact receivePacket_shrinks ‹_›

/-- `_receive`, once the timeout is set. -/
def receive : Action σ Raised Message := do
  let cipher ← Action.read fun state => (intake.peer state).cipher
  let message ← match cipher with
    | none => intake.receiveV1 wire
    | some cipher => intake.receiveV2 wire cipher
  intake.onPeer (Action.update (Peer.count message))
  pure message

end Functions

section Loop

variable {σ : Type} {intake : Intake σ} {wire : Wire} {cipher : Cipher}

theorem receiveV2_of_error {state reached : σ} {error : Raised}
    (run : intake.receivePacket cipher state = (.error error, reached)) :
    intake.receiveV2 wire cipher state = (.error error, reached) := by
  rw [receiveV2]
  split
  · rename_i other
    rw [run] at other
    cases other
    rfl
  · rename_i other
    rw [run] at other
    cases other

theorem receiveV2_of_ok {state reached : σ} {contents : List Octet} {ignore : Bool}
    (run : intake.receivePacket cipher state = (.ok (contents, ignore), reached)) :
    intake.receiveV2 wire cipher state =
      if ignore then intake.receiveV2 wire cipher reached
      else
        match wire.messageFromContents contents with
        | none => intake.receiveV2 wire cipher reached
        | some (command, payload) =>
            (.ok ⟨(intake.peer reached).magic, command, payload⟩, reached) := by
  rw [receiveV2]
  split
  · rename_i other
    rw [run] at other
    cases other
  · rename_i other
    rw [run] at other
    cases other
    rfl

/-- What a packet that was read makes of the loop: one more turn, or its message. -/
def onPacket (intake : Intake σ) (wire : Wire) (loop : Action σ Raised Message)
    (answer : List Octet × Bool) : Action σ Raised Message := fun state =>
  if answer.2 then loop state
  else
    match wire.messageFromContents answer.1 with
    | none => loop state
    | some (command, payload) => (.ok ⟨(intake.peer state).magic, command, payload⟩, state)

theorem receiveV2_turn (state : σ) : intake.receiveV2 wire cipher state =
    (intake.receivePacket cipher >>= intake.onPacket wire (intake.receiveV2 wire cipher))
      state := by
  rw [Action.bind_apply]
  rcases run : intake.receivePacket cipher state with ⟨error | ⟨contents, ignore⟩, reached⟩
  · exact receiveV2_of_error run
  · exact receiveV2_of_ok run

end Loop

end Intake

end BitcoinNodeTests
