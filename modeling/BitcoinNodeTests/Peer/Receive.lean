import BitcoinNodeTests.Peer.Intake

/-!
# Receiving and sending messages

`receive` of a peer over both transports, and `send`.  A `recv` waits for no clock here: what
interrupts it is one of the arrivals.  `decryptLength_ok`, `body_ok` and their errors say all
that reading one packet can do.
-/

set_option autoImplicit false

namespace BitcoinNodeTests

open Foundation

namespace Peer

/-- The peer itself, its octets awaited among the arrivals. -/
def intake : Intake Peer where
  peer peer := peer
  ahead := ahead
  onPeer action := action
  readUntil := readUntil
  takes run := by
    obtain ⟨size, consumed, -⟩ := take_ok run
    rw [consumed.ahead_eq, List.length_append, size, Nat.add_comm]
  keeps {_ _ state _ _} same run := by
    obtain ⟨buffer, arrivals⟩ := same state
    rw [run] at buffer arrivals
    rw [ahead, ahead, buffer, arrivals]

def receiveV1 (wire : Wire) : Action Peer Raised Message := intake.receiveV1 wire

def decryptLength (cipher : Cipher) : Action Peer Raised Nat := intake.decryptLength cipher

def receivePacket (cipher : Cipher) : Action Peer Raised (List Octet × Bool) :=
  intake.receivePacket cipher

def receiveV2 (wire : Wire) (cipher : Cipher) : Action Peer Raised Message :=
  intake.receiveV2 wire cipher

/-- `receive`, at whatever timeout: a wait that ends is a `quiet` arrival. -/
def receive (wire : Wire) : Action Peer Raised Message := intake.receive wire

theorem receivePacket_shrinks {cipher : Cipher} {peer reached : Peer}
    {answer : List Octet × Bool} (run : receivePacket cipher peer = (.ok answer, reached)) :
    reached.ahead.length < peer.ahead.length :=
  Intake.receivePacket_shrinks run

/-- The end of `_v2_handshake`: the node's decoys, then its version packet. -/
def receiveVersionPacket (cipher : Cipher) : Action Peer Raised Unit := fun peer =>
  match _run : receivePacket cipher peer with
  | (.error error, reached) => (.error error, reached)
  | (.ok (_, ignore), reached) =>
      if ignore then receiveVersionPacket cipher reached else (.ok (), reached)
termination_by peer => peer.ahead.length
decreasing_by exact receivePacket_shrinks ‹_›

/-! ## The v2 packets -/

/-- A packet begun is finished from the length kept. -/
theorem receivePacket_of_some {cipher : Cipher} {peer : Peer} {length : Nat}
    (pending : peer.contentsLen = some length) :
    receivePacket cipher peer =
      (take (HEADER_LEN + length + TAG_LEN) >>= decrypt cipher) peer :=
  Intake.receivePacket_of_some pending

/-- A packet not begun has its length decrypted first. -/
theorem receivePacket_of_none {cipher : Cipher} {peer : Peer} (pending : peer.contentsLen = none) :
    receivePacket cipher peer =
      (decryptLength cipher >>= fun length =>
        take (HEADER_LEN + length + TAG_LEN) >>= decrypt cipher) peer :=
  Intake.receivePacket_of_none pending

theorem decryptLength_ok {cipher : Cipher} {peer reached : Peer} {length : Nat}
    (run : decryptLength cipher peer = (.ok length, reached)) :
    ∃ octets, octets.length = LENGTH_LEN ∧ Consumed octets peer reached ∧
      length = cipher.decryptLength peer.calls octets ∧
      reached = { peer with
        buffer := reached.buffer
        arrivals := reached.arrivals
        contentsLen := some length
        calls := peer.calls ++ [.decryptLength octets] } := by
  obtain ⟨octets, taken, takeRun, rest⟩ := Action.bind_ok_iff.mp run
  obtain ⟨size, consumed, same⟩ := take_ok takeRun
  have kept : keepLength cipher octets taken = (.ok length, reached) := rest
  simp only [keepLength, Action.read_bind, Action.update_bind, Action.pure_apply, Prod.mk.injEq,
    Except.ok.injEq] at kept
  obtain ⟨rfl, rfl⟩ := kept
  refine ⟨octets, size, consumed.of_same rfl rfl, by rw [same], ?_⟩
  rw [same]

theorem decryptLength_error {cipher : Cipher} {peer reached : Peer} {error : Raised}
    (run : decryptLength cipher peer = (.error error, reached)) :
    reached.buffer.length < LENGTH_LEN ∧ Interrupted [] peer reached error ∧
      SameBut peer reached := by
  rcases Action.bind_error_iff.mp run with takeRun | ⟨octets, taken, -, rest⟩
  · exact take_error takeRun
  · cases rest

/-- What is left of a packet once its length is known: its ciphertext is taken whole
or not at all, and decrypted once. -/
theorem body_ok {cipher : Cipher} {length : Nat} {peer reached : Peer}
    {answer : List Octet × Bool}
    (run : (take (HEADER_LEN + length + TAG_LEN) >>= decrypt cipher) peer = (.ok answer, reached)) :
    ∃ body, body.length = HEADER_LEN + length + TAG_LEN ∧ Consumed body peer reached ∧
      cipher.decrypt peer.calls body peer.aad = some answer ∧
      reached = { peer with
        buffer := reached.buffer
        arrivals := reached.arrivals
        contentsLen := none
        aad := []
        calls := peer.calls ++ [.decrypt body peer.aad] } := by
  obtain ⟨body, taken, takeRun, rest⟩ := Action.bind_ok_iff.mp run
  obtain ⟨size, consumed, same⟩ := take_ok takeRun
  have sameCalls : taken.calls = peer.calls := by rw [same]
  have sameAad : taken.aad = peer.aad := by rw [same]
  simp only [decrypt, Action.read_bind, Action.update_bind, sameCalls, sameAad] at rest
  cases answered : cipher.decrypt peer.calls body peer.aad with
  | none => simp [answered] at rest
  | some packet =>
      simp only [answered, Action.pure_apply, Prod.mk.injEq, Except.ok.injEq] at rest
      obtain ⟨rfl, rfl⟩ := rest
      refine ⟨body, size, consumed.of_same rfl rfl, answered, ?_⟩
      rw [same]

theorem body_error {cipher : Cipher} {length : Nat} {peer reached : Peer} {error : Raised}
    (run : (take (HEADER_LEN + length + TAG_LEN) >>= decrypt cipher) peer =
      (.error error, reached)) :
    (reached.buffer.length < HEADER_LEN + length + TAG_LEN ∧ Interrupted [] peer reached error ∧
        SameBut peer reached) ∨
      ∃ body, body.length = HEADER_LEN + length + TAG_LEN ∧ Consumed body peer reached ∧
        cipher.decrypt peer.calls body peer.aad = none := by
  rcases Action.bind_error_iff.mp run with takeRun | ⟨body, taken, takeRun, rest⟩
  · exact Or.inl (take_error takeRun)
  · obtain ⟨size, consumed, same⟩ := take_ok takeRun
    have sameCalls : taken.calls = peer.calls := by rw [same]
    have sameAad : taken.aad = peer.aad := by rw [same]
    simp only [decrypt, Action.read_bind, Action.update_bind, sameCalls, sameAad] at rest
    cases answered : cipher.decrypt peer.calls body peer.aad with
    | some packet => simp [answered] at rest
    | none =>
        simp only [answered, Action.raise_apply, Prod.mk.injEq] at rest
        obtain ⟨-, rfl⟩ := rest
        exact Or.inr ⟨body, size, consumed.of_same rfl rfl, answered⟩

/-! ## Sending -/

/-- `send` of a message of this connection's network; the codec that makes the
message of a payload is the caller's. -/
def send (wire : Wire) (command : String) (payload : List Octet) (isDecoy : Bool) :
    Action Peer Raised Unit := do
  let peer ← Action.read id
  match peer.cipher with
  | none =>
      if isDecoy then
        Action.raise (.valueError "a decoy is a v2 packet, and this connection speaks v1")
      else
        Action.update fun peer =>
          { peer with sent := peer.sent ++ wire.serialize ⟨peer.magic, command, payload⟩ }
  | some cipher =>
      let packet : Encryption := ⟨wire.contentsFromMessage command payload, [], isDecoy⟩
      Action.update fun peer =>
        { peer with
          sent := peer.sent ++ cipher.encrypt peer.encrypted packet
          encrypted := peer.encrypted ++ [packet] }

/-! ## Runs of calls -/

inductive Call where
  | receive
  | isConnected
  deriving DecidableEq, Repr

inductive Event where
  | returned (message : Message)
  | raised (error : Raised)
  | connected (answer : Bool)
  deriving DecidableEq, Repr

def perform (wire : Wire) (call : Call) (peer : Peer) : Event × Peer :=
  match call with
  | .receive =>
      match receive wire peer with
      | (.ok message, reached) => (.returned message, reached)
      | (.error error, reached) => (.raised error, reached)
  | .isConnected =>
      match isConnected peer with
      | (.ok answer, reached) => (.connected answer, reached)
      | (.error error, reached) => (.raised error, reached)

def run (wire : Wire) : List Call → Peer → List Event × Peer
  | [], peer => ([], peer)
  | call :: rest, peer =>
      let (event, reached) := perform wire call peer
      let (events, final) := run wire rest reached
      (event :: events, final)

def returnedMessages (events : List Event) : List Message :=
  events.filterMap fun
    | .returned message => some message
    | _ => none

theorem returnedMessages_run_cons (wire : Wire) (call : Call) (calls : List Call) (peer : Peer) :
    returnedMessages (run wire (call :: calls) peer).1 =
      returnedMessages [(perform wire call peer).1] ++
        returnedMessages (run wire calls (perform wire call peer).2).1 := by
  have split : (run wire (call :: calls) peer).1 =
      [(perform wire call peer).1] ++ (run wire calls (perform wire call peer).2).1 := rfl
  rw [split]
  exact List.filterMap_append

/-- `message_count` and `last_message` describe exactly `messages`. -/
structure Counts (messages : List Message) (peer : Peer) : Prop where
  counted : ∀ command, peer.messageCount command =
    (messages.filter fun message => message.command = command).length
  latest : ∀ command, peer.lastMessage command =
    (messages.filter fun message => message.command = command).getLast?

theorem Counts.same {messages : List Message} {peer reached : Peer} (counts : Counts messages peer)
    (sameCount : reached.messageCount = peer.messageCount)
    (sameLast : reached.lastMessage = peer.lastMessage) : Counts messages reached :=
  ⟨fun command => by rw [sameCount, counts.counted], fun command => by rw [sameLast, counts.latest]⟩

theorem Counts.count {messages : List Message} {peer : Peer} (counts : Counts messages peer)
    (message : Message) : Counts (messages ++ [message]) (count message peer) := by
  refine ⟨?_, ?_⟩
  · intro command
    by_cases same : message.command = command
    · subst same
      simp [Peer.count, List.filter_append, counts.counted]
    · simp [Peer.count, List.filter_append, same, Function.update_of_ne (Ne.symm same),
        counts.counted]
  · intro command
    by_cases same : message.command = command
    · subst same
      simp [Peer.count, List.filter_append]
    · simp [Peer.count, List.filter_append, same, Function.update_of_ne (Ne.symm same),
        counts.latest]

end Peer

end BitcoinNodeTests
