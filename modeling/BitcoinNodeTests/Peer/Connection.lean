import Mathlib.Logic.Function.Basic
import BitcoinNodeTests.Foundation.Action
import BitcoinNodeTests.Foundation.Arrivals
import BitcoinNodeTests.Foundation.Octets

/-!
# The p2p connection a test drives

`Peer` over its socket: what the socket answers to reads is a list of arrivals,
what it was given to send is kept whole.  The wire codecs are btclib's and come in
as `Wire`; a BIP324 cipher comes in as `Cipher`, an object whose answers may
depend on every call made to it before.
-/

set_option autoImplicit false

namespace BitcoinNodeTests

open Foundation

structure Message where
  magic : List Octet
  command : String
  payload : List Octet
  deriving DecidableEq, Repr

/-- What a call raises.  `waiting` is no exception: the read it made last has no
answer yet. -/
inductive Raised where
  | valueError (text : String)
  | btclibValueError
  | connectionError (text : String)
  | connectionReset
  | timeoutError
  | waiting
  deriving DecidableEq, Repr

/-- `BTClibValueError` derives from `ValueError`. -/
def Raised.IsValueError : Raised → Prop
  | .valueError _ => True
  | .btclibValueError => True
  | _ => False

/-- What `Message.parse` makes of a stream: one message and the octets it took, an
`IncompleteMessageError`, or another refusal. -/
inductive Parsed where
  | whole (message : Message) (length : Nat)
  | incomplete
  | refused
  deriving DecidableEq, Repr

/-- `btclib.p2p.Message` and `btclib.p2p.bip324`'s contents. -/
structure Wire where
  serialize : Message → List Octet
  parse : List Octet → Parsed
  contentsFromMessage : String → List Octet → List Octet
  messageFromContents : List Octet → Option (String × List Octet)

/-- One call of the receiving half of a cipher, or of its sending half. -/
inductive CipherCall where
  | decryptLength (octets : List Octet)
  | decrypt (ciphertext aad : List Octet)
  deriving DecidableEq, Repr

structure Encryption where
  contents : List Octet
  aad : List Octet
  ignore : Bool
  deriving DecidableEq, Repr

/-- A `btclib.p2p.bip324.Cipher`: each half answers from the calls made to it
before, which is all its state. -/
structure Cipher where
  sendGarbageTerminator : List Octet
  recvGarbageTerminator : List Octet
  encrypt : List Encryption → Encryption → List Octet
  decryptLength : List CipherCall → List Octet → Nat
  decrypt : List CipherCall → List Octet → List Octet → Option (List Octet × Bool)

def HEADER_LEN : Nat := 1
def LENGTH_LEN : Nat := 3
def TAG_LEN : Nat := 16
def ELL_SIZE : Nat := 64

def RECV_SIZE : Nat := 4096

structure Peer where
  magic : List Octet
  dialled : Bool
  closed : Bool
  arrivals : List (Arrival Octet)
  sent : List Octet
  buffer : List Octet
  cipher : Option Cipher
  encrypted : List Encryption
  calls : List CipherCall
  contentsLen : Option Nat
  aad : List Octet
  messageCount : String → Nat
  lastMessage : String → Option Message

namespace Peer

/-- `_adopt`: a peer over a connection that has yet to be read. -/
def adopt (magic : List Octet) (dialled : Bool) (arrivals : List (Arrival Octet)) : Peer where
  magic := magic
  dialled := dialled
  closed := false
  arrivals := arrivals
  sent := []
  buffer := []
  cipher := none
  encrypted := []
  calls := []
  contentsLen := none
  aad := []
  messageCount := fun _ => 0
  lastMessage := fun _ => none

/-- The octets the peer has yet to consume: those it holds, then those to arrive. -/
def ahead (peer : Peer) : List Octet := peer.buffer ++ Arrival.octets peer.arrivals

/-- What a `recv` that answered no octet makes the call raise, `_recv_more`'s own
`ConnectionError` where the node closed the connection. -/
def raisedBy : Interruption → Raised
  | .pending => .waiting
  | .quiet => .timeoutError
  | .closed => .connectionError "connection closed while waiting for a message"
  | .reset => .connectionReset

theorem raisedBy_not_valueError (why : Interruption) : ¬ (raisedBy why).IsValueError := by
  cases why <;> exact id

def readUntil {β : Type} (reader : Reader Octet β Raised) : Action Peer Raised β := fun peer =>
  let result := await (fun _ => RECV_SIZE) reader peer.buffer peer.arrivals
  let reached := { peer with buffer := result.held, arrivals := result.arrivals }
  match result.outcome with
  | .returned value => (.ok value, reached)
  | .refused error => (.error error, reached)
  | .interrupted why => (.error (raisedBy why), reached)

def takeReader (size : Nat) : Reader Octet (List Octet) Raised := fun buffer =>
  if buffer.length < size then .more else .done (buffer.take size) (buffer.drop size)

def take (size : Nat) : Action Peer Raised (List Octet) := readUntil (takeReader size)

/-- `is_connected`: the reads without waiting end at a `BlockingIOError`, the
node's close or its reset, and keep the octets they took. -/
def isConnected : Action Peer Raised Bool := fun peer =>
  if peer.closed then (.ok false, peer) else
    let result : Awaited Octet Unit Raised :=
      await (fun _ => RECV_SIZE) (fun _ => .more) peer.buffer peer.arrivals
    let open_ := match result.outcome with
      | .interrupted .pending => true
      | .interrupted .quiet => true
      | _ => false
    (.ok open_, { peer with buffer := result.held, arrivals := result.arrivals })

/-! ## What reading changes -/

/-- The octets the peer can consume before its connection pauses. -/
def promptAhead (peer : Peer) : List Octet := peer.buffer ++ Arrival.prompt peer.arrivals

/-- How the connection pauses then. -/
def pause (peer : Peer) : Interruption := Arrival.stop peer.arrivals

def SameBut (peer reached : Peer) : Prop :=
  reached = { peer with buffer := reached.buffer, arrivals := reached.arrivals }

/-- The octets `taken` were consumed, before the connection paused. -/
structure Consumed (taken : List Octet) (peer reached : Peer) : Prop where
  ahead_eq : peer.ahead = taken ++ reached.ahead
  prompt_eq : peer.promptAhead = taken ++ reached.promptAhead
  pause_eq : reached.pause = peer.pause

/-- The octets `taken` were consumed and then the call was interrupted as the
connection pauses, with all that had arrived in the buffer. -/
structure Interrupted (taken : List Octet) (peer reached : Peer) (error : Raised) : Prop where
  ahead_eq : peer.ahead = taken ++ reached.ahead
  buffer_eq : peer.promptAhead = taken ++ reached.buffer
  error_eq : error = raisedBy peer.pause

theorem Consumed.trans {first second : List Octet} {peer middle reached : Peer}
    (before : Consumed first peer middle) (after : Consumed second middle reached) :
    Consumed (first ++ second) peer reached := by
  refine ⟨?_, ?_, after.pause_eq.trans before.pause_eq⟩
  · rw [before.ahead_eq, after.ahead_eq, List.append_assoc]
  · rw [before.prompt_eq, after.prompt_eq, List.append_assoc]

theorem Consumed.interrupted {first second : List Octet} {peer middle reached : Peer}
    {error : Raised} (before : Consumed first peer middle)
    (after : Interrupted second middle reached error) :
    Interrupted (first ++ second) peer reached error := by
  refine ⟨?_, ?_, ?_⟩
  · rw [before.ahead_eq, after.ahead_eq, List.append_assoc]
  · rw [before.prompt_eq, after.buffer_eq, List.append_assoc]
  · rw [after.error_eq, before.pause_eq]

theorem Interrupted.not_valueError {taken : List Octet} {peer reached : Peer} {error : Raised}
    (interrupted : Interrupted taken peer reached error) : ¬ error.IsValueError := by
  rw [interrupted.error_eq]
  exact raisedBy_not_valueError _

/-- What the peer is but for its buffer and its arrivals does not matter to them. -/
theorem Consumed.of_same {taken : List Octet} {peer reached after : Peer}
    (consumed : Consumed taken peer reached) (sameBuffer : after.buffer = reached.buffer)
    (sameArrivals : after.arrivals = reached.arrivals) : Consumed taken peer after := by
  refine ⟨?_, ?_, ?_⟩
  · rw [consumed.ahead_eq, ahead, ahead, sameBuffer, sameArrivals]
  · rw [consumed.prompt_eq, promptAhead, promptAhead, sameBuffer, sameArrivals]
  · rw [← consumed.pause_eq, pause, pause, sameArrivals]

/-- A loop over the buffer that returned found its value in octets that, with what
it leaves, are the octets there were. -/
theorem readUntil_ok {β : Type} {reader : Reader Octet β Raised} {peer reached : Peer}
    {value : β} (run : readUntil reader peer = (.ok value, reached)) :
    ∃ held, held ++ Arrival.octets reached.arrivals = peer.ahead ∧
      held ++ Arrival.prompt reached.arrivals = peer.promptAhead ∧ reached.pause = peer.pause ∧
      reader held = .done value reached.buffer ∧ SameBut peer reached := by
  obtain ⟨held, -, kept, decided, promptly⟩ :=
    await_spec (fun _ => RECV_SIZE) reader peer.buffer peer.arrivals
  simp only [readUntil] at run
  rcases result : await (fun _ => RECV_SIZE) reader peer.buffer peer.arrivals with ⟨outcome, rest, later⟩
  rw [result] at run kept decided promptly
  cases outcome with
  | returned found =>
      obtain ⟨rfl, rfl⟩ : found = value ∧
          { peer with buffer := rest, arrivals := later } = reached := by simpa using run
      exact ⟨held, kept, promptly.2, promptly.1, decided, rfl⟩
  | refused error => simp at run
  | interrupted why => simp at run

/-- A loop over the buffer that raised consumed nothing: it refused the octets it
holds, or was interrupted while it needs more of them. -/
theorem readUntil_error {β : Type} {reader : Reader Octet β Raised} {peer reached : Peer}
    {error : Raised} (run : readUntil reader peer = (.error error, reached)) :
    reached.ahead = peer.ahead ∧ SameBut peer reached ∧
      (reader reached.buffer = .refuse error ∨
        reader reached.buffer = .more ∧ Interrupted [] peer reached error) := by
  obtain ⟨held, -, kept, decided, promptly⟩ :=
    await_spec (fun _ => RECV_SIZE) reader peer.buffer peer.arrivals
  simp only [readUntil] at run
  rcases result : await (fun _ => RECV_SIZE) reader peer.buffer peer.arrivals with ⟨outcome, rest, later⟩
  rw [result] at run kept decided promptly
  cases outcome with
  | returned found => simp at run
  | refused refusal =>
      obtain ⟨rfl, rfl⟩ : refusal = error ∧
          { peer with buffer := rest, arrivals := later } = reached := by simpa using run
      obtain ⟨verdict, rfl⟩ := decided
      exact ⟨kept, rfl, Or.inl verdict⟩
  | interrupted why =>
      obtain ⟨rfl, rfl⟩ : raisedBy why = error ∧
          { peer with buffer := rest, arrivals := later } = reached := by simpa using run
      obtain ⟨verdict, rfl⟩ := decided
      obtain ⟨rfl, full⟩ := promptly
      exact ⟨kept, rfl, Or.inr ⟨verdict, kept.symm, full.symm, rfl⟩⟩

theorem readUntil_refused {β : Type} {reader : Reader Octet β Raised} {peer reached : Peer}
    {error : Raised} (run : readUntil reader peer = (.error error, reached))
    (refuses : reader reached.buffer ≠ .more) : Consumed [] peer reached := by
  obtain ⟨held, -, kept, decided, promptly⟩ :=
    await_spec (fun _ => RECV_SIZE) reader peer.buffer peer.arrivals
  simp only [readUntil] at run
  rcases result : await (fun _ => RECV_SIZE) reader peer.buffer peer.arrivals with ⟨outcome, rest, later⟩
  rw [result] at run kept decided promptly
  cases outcome with
  | returned found => simp at run
  | refused refusal =>
      obtain ⟨rfl, rfl⟩ : refusal = error ∧
          { peer with buffer := rest, arrivals := later } = reached := by simpa using run
      obtain ⟨-, rfl⟩ := decided
      exact ⟨kept.symm, promptly.2.symm, promptly.1⟩
  | interrupted why =>
      obtain ⟨rfl, rfl⟩ : raisedBy why = error ∧
          { peer with buffer := rest, arrivals := later } = reached := by simpa using run
      obtain ⟨verdict, rfl⟩ := decided
      exact absurd verdict refuses

theorem take_ok {size : Nat} {peer reached : Peer} {taken : List Octet}
    (run : take size peer = (.ok taken, reached)) :
    taken.length = size ∧ Consumed taken peer reached ∧ SameBut peer reached := by
  obtain ⟨held, kept, promptly, paused, verdict, same⟩ := readUntil_ok run
  unfold takeReader at verdict
  split at verdict
  · cases verdict
  · rename_i enough
    obtain ⟨rfl, rest⟩ : held.take size = taken ∧ held.drop size = reached.buffer := by
      simpa using verdict
    refine ⟨?_, ⟨?_, ?_, paused⟩, same⟩
    · rw [List.length_take]
      omega
    · rw [← kept, ahead, ← rest, ← List.append_assoc, List.take_append_drop]
    · rw [← promptly, promptAhead, ← rest, ← List.append_assoc, List.take_append_drop]

/-- A wait that ends takes nothing: what arrived stays in the buffer, too short. -/
theorem take_error {size : Nat} {peer reached : Peer} {error : Raised}
    (run : take size peer = (.error error, reached)) :
    reached.buffer.length < size ∧ Interrupted [] peer reached error ∧ SameBut peer reached := by
  obtain ⟨-, same, verdict | ⟨verdict, interrupted⟩⟩ := readUntil_error run
  · unfold takeReader at verdict
    split at verdict <;> cases verdict
  · unfold takeReader at verdict
    split at verdict
    · rename_i short
      exact ⟨short, interrupted, same⟩
    · cases verdict

theorem isConnected_spec (peer : Peer) :
    ∃ answer reached, isConnected peer = (.ok answer, reached) ∧
      reached.ahead = peer.ahead ∧ SameBut peer reached := by
  unfold isConnected
  split
  · exact ⟨false, peer, rfl, rfl, rfl⟩
  · obtain ⟨held, -, kept, decided, -⟩ :=
      await_spec (fun _ => RECV_SIZE) (fun _ => (.more : Verdict Octet Unit Raised)) peer.buffer peer.arrivals
    refine ⟨_, _, rfl, ?_, rfl⟩
    rcases result : await (fun _ => RECV_SIZE) (fun _ => (.more : Verdict Octet Unit Raised)) peer.buffer
      peer.arrivals with ⟨outcome, rest, later⟩
    rw [result] at kept decided
    cases outcome with
    | returned found => cases decided
    | refused refusal => cases decided.1
    | interrupted why =>
        obtain ⟨-, rfl⟩ := decided
        exact kept

end Peer

end BitcoinNodeTests
