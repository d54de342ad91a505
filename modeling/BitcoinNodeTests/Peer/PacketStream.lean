import Mathlib.Data.List.Infix
import BitcoinNodeTests.Peer.Receive

/-!
# The v2 packet stream

A cipher is only asked of here where it is called in order: `Deciphers` says what it
answers once the calls made to it are exactly those of the packets before, and
nothing about any other history.  `Tracked` says where a peer stands in the stream,
on a packet boundary or inside a packet whose length is known; reading a packet moves
it one packet on or leaves it there, so every call to the cipher is the next one due.
-/

set_option autoImplicit false

namespace BitcoinNodeTests

open Foundation

/-- A packet as the other side encrypted it, and what it holds. -/
structure Packet where
  lengthOctets : List Octet
  body : List Octet
  contents : List Octet
  ignore : Bool
  deriving DecidableEq, Repr

def Packet.octets (packet : Packet) : List Octet := packet.lengthOctets ++ packet.body

def packetsOctets (packets : List Packet) : List Octet := packets.flatMap Packet.octets

/-- The calls a packet stream is read with, `aad` being for its first packet alone. -/
def callsFor (aad : List Octet) : List Packet → List CipherCall
  | [] => []
  | packet :: rest =>
      .decryptLength packet.lengthOctets :: .decrypt packet.body aad :: callsFor [] rest

/-- The associated data of the packet after `read`. -/
def aadAfter (garbage : List Octet) : List Packet → List Octet
  | [] => garbage
  | _ :: _ => []

/-- What the cipher answers when it is called in order. -/
def Deciphers (cipher : Cipher) (garbage : List Octet) (packets : List Packet) : Prop :=
  ∀ read packet later, packets = read ++ packet :: later →
    packet.lengthOctets.length = LENGTH_LEN ∧
      packet.body.length = HEADER_LEN + packet.contents.length + TAG_LEN ∧
      cipher.decryptLength (callsFor garbage read) packet.lengthOctets = packet.contents.length ∧
      cipher.decrypt (callsFor garbage read ++ [.decryptLength packet.lengthOctets]) packet.body
        (aadAfter garbage read) = some (packet.contents, packet.ignore)

/-- The message a packet gives: none where it is a decoy or its contents are refused. -/
def readable (wire : Wire) (magic : List Octet) (packet : Packet) : Option Message :=
  if packet.ignore then none
  else (wire.messageFromContents packet.contents).map fun (command, payload) =>
    ⟨magic, command, payload⟩

theorem callsFor_append_singleton (garbage : List Octet) (read : List Packet) (packet : Packet) :
    callsFor garbage (read ++ [packet]) = callsFor garbage read ++
      [.decryptLength packet.lengthOctets, .decrypt packet.body (aadAfter garbage read)] := by
  induction read generalizing garbage with
  | nil => rfl
  | cons first rest ih =>
      have tail : aadAfter [] rest = aadAfter garbage (first :: rest) := by
        cases rest <;> rfl
      simp only [List.cons_append, callsFor, ih, tail]

theorem aadAfter_append_singleton (garbage : List Octet) (read : List Packet) (packet : Packet) :
    aadAfter garbage (read ++ [packet]) = [] := by
  cases read <;> rfl

namespace Peer

/-- Where a peer stands in the stream: what the cipher was called with, and the
octets ahead of it with those still to come. -/
def Position (garbage : List Octet) (read rest : List Packet) (unsent : List Octet)
    (peer : Peer) : Prop :=
  match peer.contentsLen with
  | none =>
      peer.calls = callsFor garbage read ∧ peer.ahead ++ unsent = packetsOctets rest
  | some length =>
      ∃ packet later, rest = packet :: later ∧ length = packet.contents.length ∧
        peer.calls = callsFor garbage read ++ [.decryptLength packet.lengthOctets] ∧
        peer.ahead ++ unsent = packet.body ++ packetsOctets later

structure Tracked (garbage : List Octet) (read rest : List Packet) (unsent : List Octet)
    (peer : Peer) : Prop where
  aad_eq : peer.aad = aadAfter garbage read
  position : Position garbage read rest unsent peer

/-- The octets held are not the rest of the packet the peer stands in. -/
def NoWholePacket (rest : List Packet) (peer : Peer) : Prop :=
  ∀ packet later, rest = packet :: later →
    match peer.contentsLen with
    | none => peer.buffer.length < packet.octets.length
    | some _ => peer.buffer.length < packet.body.length

def SameButReading (peer reached : Peer) : Prop :=
  reached = { peer with
    buffer := reached.buffer
    arrivals := reached.arrivals
    contentsLen := reached.contentsLen
    aad := reached.aad
    calls := reached.calls }

theorem SameButReading.trans {peer middle reached : Peer} (first : SameButReading peer middle)
    (second : SameButReading middle reached) : SameButReading peer reached := by
  unfold SameButReading at first second ⊢
  rw [first] at second
  exact second

theorem SameBut.reading {peer reached : Peer} (same : SameBut peer reached) :
    SameButReading peer reached := by
  unfold SameButReading
  rw [same]

theorem Tracked.same {garbage : List Octet} {read rest : List Packet} {unsent : List Octet}
    {peer reached : Peer} (tracked : Tracked garbage read rest unsent peer)
    (kept : reached.ahead = peer.ahead) (same : SameBut peer reached) :
    Tracked garbage read rest unsent reached := by
  obtain ⟨aad, position⟩ := tracked
  refine ⟨?_, ?_⟩
  · rw [same]
    exact aad
  · unfold Position at position ⊢
    rw [kept]
    rw [same]
    exact position

section Packets

variable {cipher : Cipher} {garbage : List Octet} {packets read rest : List Packet}
  {unsent : List Octet} {peer reached : Peer}

/-- The front of two equal streams, where the front is as long as theirs. -/
theorem front_eq {taken ahead unsent front rest : List Octet} (size : taken.length = front.length)
    (stream : (taken ++ ahead) ++ unsent = front ++ rest) :
    taken = front ∧ ahead ++ unsent = rest := by
  rw [List.append_assoc] at stream
  exact List.append_inj stream size

/-- Inside a packet, the ciphertext taken is that packet's and decrypts to it. -/
theorem body_tracked (deciphers : Deciphers cipher garbage packets)
    (split : packets = read ++ rest) {packet : Packet} {later : List Packet}
    (here : rest = packet :: later) (aad : peer.aad = aadAfter garbage read)
    (calls : peer.calls = callsFor garbage read ++ [.decryptLength packet.lengthOctets])
    (stream : peer.ahead ++ unsent = packet.body ++ packetsOctets later)
    {answer : List Octet × Bool}
    (run : (take (HEADER_LEN + packet.contents.length + TAG_LEN) >>= decrypt cipher) peer =
      (.ok answer, reached)) :
    answer = (packet.contents, packet.ignore) ∧
      Tracked garbage (read ++ [packet]) later unsent reached ∧ reached.contentsLen = none ∧
      Consumed packet.body peer reached ∧ SameButReading peer reached := by
  subst here
  obtain ⟨-, bodyLength, -, decrypted⟩ := deciphers read packet later split
  obtain ⟨body, size, consumed, answered, same⟩ := body_ok run
  have sameStream := stream
  rw [consumed.ahead_eq] at sameStream
  obtain ⟨rfl, moved⟩ := front_eq (by rw [size, bodyLength]) sameStream
  rw [calls, aad, decrypted] at answered
  cases answered
  have ended : reached.contentsLen = none := by rw [same]
  have reading : SameButReading peer reached := by
    unfold SameButReading
    rw [same]
  refine ⟨rfl, ⟨?_, ?_⟩, ended, consumed, reading⟩
  · rw [same, aadAfter_append_singleton]
  · unfold Position
    rw [ended]
    refine ⟨?_, moved⟩
    rw [same, callsFor_append_singleton, calls, aad, List.append_assoc]
    rfl

theorem body_stalls (deciphers : Deciphers cipher garbage packets)
    (split : packets = read ++ rest) {packet : Packet} {later : List Packet}
    (here : rest = packet :: later) (aad : peer.aad = aadAfter garbage read)
    (calls : peer.calls = callsFor garbage read ++ [.decryptLength packet.lengthOctets])
    (stream : peer.ahead ++ unsent = packet.body ++ packetsOctets later) {error : Raised}
    (run : (take (HEADER_LEN + packet.contents.length + TAG_LEN) >>= decrypt cipher) peer =
      (.error error, reached)) :
    Interrupted [] peer reached error ∧ SameBut peer reached ∧
      reached.buffer.length < packet.body.length := by
  subst here
  obtain ⟨-, bodyLength, -, decrypted⟩ := deciphers read packet later split
  rcases body_error run with ⟨short, interrupted, same⟩ | ⟨body, size, consumed, refused⟩
  · rw [← bodyLength] at short
    exact ⟨interrupted, same, short⟩
  · -- a whole ciphertext is the packet's own, and that one decrypts
    have sameStream := stream
    rw [consumed.ahead_eq] at sameStream
    obtain ⟨rfl, -⟩ := front_eq (by rw [size, bodyLength]) sameStream
    rw [calls, aad, decrypted] at refused
    cases refused

theorem Tracked.boundary {garbage : List Octet} {read rest : List Packet}
    {unsent : List Octet} {peer : Peer} (tracked : Tracked garbage read rest unsent peer)
    (known : peer.contentsLen = none) :
    peer.calls = callsFor garbage read ∧ peer.ahead ++ unsent = packetsOctets rest := by
  have position := tracked.position
  unfold Position at position
  rw [known] at position
  exact position

/-- On a packet boundary, the three octets taken are the next packet's length. -/
theorem decryptLength_tracked (deciphers : Deciphers cipher garbage packets)
    (split : packets = read ++ rest) (tracked : Tracked garbage read rest unsent peer)
    (boundary : peer.contentsLen = none) {length : Nat}
    (run : decryptLength cipher peer = (.ok length, reached)) :
    ∃ packet later, rest = packet :: later ∧ length = packet.contents.length ∧
      reached.aad = aadAfter garbage read ∧ reached.contentsLen = some length ∧
      reached.calls = callsFor garbage read ++ [.decryptLength packet.lengthOctets] ∧
      reached.ahead ++ unsent = packet.body ++ packetsOctets later ∧
      Consumed packet.lengthOctets peer reached ∧ SameButReading peer reached := by
  obtain ⟨calls, stream⟩ := tracked.boundary boundary
  obtain ⟨octets, size, consumed, rfl, same⟩ := decryptLength_ok run
  cases rest with
  | nil =>
      -- nothing is left of the stream to take three octets from
      have empty : peer.ahead ++ unsent = [] := stream
      rw [consumed.ahead_eq, List.append_assoc] at empty
      have none : octets = [] := (List.append_eq_nil_iff.mp empty).1
      rw [none] at size
      simp [LENGTH_LEN] at size
  | cons packet later =>
      obtain ⟨lengthLength, -, decrypted, -⟩ := deciphers read packet later split
      have sameStream := stream
      have front : packetsOctets (packet :: later) =
          packet.lengthOctets ++ (packet.body ++ packetsOctets later) := by
        simp only [packetsOctets, List.flatMap_cons, Packet.octets, List.append_assoc]
      rw [consumed.ahead_eq, front] at sameStream
      obtain ⟨rfl, moved⟩ := front_eq (by rw [size, lengthLength]) sameStream
      rw [calls, decrypted] at same
      have reading : SameButReading peer reached := by
        unfold SameButReading
        rw [same]
      refine ⟨packet, later, rfl, by rw [calls, decrypted], ?_, ?_, ?_, moved, consumed, reading⟩
      · rw [same]
        exact tracked.aad_eq
      · rw [same, calls, decrypted]
      · rw [same]

/-- One packet read, from wherever the peer stands: the next packet, decrypted by the
next calls due. -/
theorem receivePacket_tracked (deciphers : Deciphers cipher garbage packets)
    (split : packets = read ++ rest) (tracked : Tracked garbage read rest unsent peer)
    {answer : List Octet × Bool} (run : receivePacket cipher peer = (.ok answer, reached)) :
    ∃ packet later taken, rest = packet :: later ∧ answer = (packet.contents, packet.ignore) ∧
      Tracked garbage (read ++ [packet]) later unsent reached ∧ reached.contentsLen = none ∧
      Consumed taken peer reached ∧ SameButReading peer reached := by
  cases pending : peer.contentsLen with
  | some length =>
      rw [receivePacket_of_some pending] at run
      have position := tracked.position
      unfold Position at position
      rw [pending] at position
      obtain ⟨packet, later, here, rfl, calls, stream⟩ := position
      obtain ⟨same, after, ended, consumed, reading⟩ :=
        body_tracked deciphers split here tracked.aad_eq calls stream run
      exact ⟨packet, later, packet.body, here, same, after, ended, consumed, reading⟩
  | none =>
      rw [receivePacket_of_none pending] at run
      obtain ⟨length, middle, lengthRun, bodyRun⟩ := Action.bind_ok_iff.mp run
      obtain ⟨packet, later, here, rfl, aad, -, calls, stream, lengthConsumed, lengthReading⟩ :=
        decryptLength_tracked deciphers split tracked pending lengthRun
      obtain ⟨same, after, ended, consumed, reading⟩ :=
        body_tracked deciphers split here aad calls stream bodyRun
      exact ⟨packet, later, packet.lengthOctets ++ packet.body, here, same, after, ended,
        lengthConsumed.trans consumed, lengthReading.trans reading⟩

/-- A packet read that raises is an interruption: the peer stands in the same packet,
its length decrypted at most once, and resumes there. -/
theorem receivePacket_stalls (deciphers : Deciphers cipher garbage packets)
    (split : packets = read ++ rest) (tracked : Tracked garbage read rest unsent peer)
    {error : Raised} (run : receivePacket cipher peer = (.error error, reached)) :
    ∃ taken, Interrupted taken peer reached error ∧ Tracked garbage read rest unsent reached ∧
      NoWholePacket rest reached ∧ SameButReading peer reached := by
  cases pending : peer.contentsLen with
  | some length =>
      rw [receivePacket_of_some pending] at run
      have position := tracked.position
      unfold Position at position
      rw [pending] at position
      obtain ⟨packet, later, here, rfl, calls, stream⟩ := position
      obtain ⟨interrupted, same, short⟩ :=
        body_stalls deciphers split here tracked.aad_eq calls stream run
      refine ⟨[], interrupted, tracked.same interrupted.ahead_eq.symm same, ?_, same.reading⟩
      intro packet' later' here'
      obtain ⟨rfl, rfl⟩ : packet = packet' ∧ later = later' := by simpa [here] using here'
      have pending' : reached.contentsLen = some packet.contents.length := by
        rw [same]
        exact pending
      rw [pending']
      exact short
  | none =>
      rw [receivePacket_of_none pending] at run
      rcases Action.bind_error_iff.mp run with lengthRun | ⟨length, middle, lengthRun, bodyRun⟩
      · obtain ⟨short, interrupted, same⟩ := decryptLength_error lengthRun
        refine ⟨[], interrupted, tracked.same interrupted.ahead_eq.symm same, ?_, same.reading⟩
        intro packet later here
        obtain ⟨lengthLength, -⟩ := deciphers read packet later (by rw [split, here])
        have pending' : reached.contentsLen = none := by
          rw [same]
          exact pending
        rw [pending']
        simp only [Packet.octets, List.length_append, lengthLength]
        omega
      · obtain ⟨packet, later, here, rfl, aad, kept, calls, stream, lengthConsumed,
          lengthReading⟩ := decryptLength_tracked deciphers split tracked pending lengthRun
        obtain ⟨interrupted, same, short⟩ :=
          body_stalls deciphers split here aad calls stream bodyRun
        have middleTracked : Tracked garbage read rest unsent middle := by
          refine ⟨aad, ?_⟩
          unfold Position
          rw [kept]
          exact ⟨packet, later, here, rfl, calls, stream⟩
        refine ⟨packet.lengthOctets ++ [], lengthConsumed.interrupted interrupted,
          middleTracked.same interrupted.ahead_eq.symm same, ?_, lengthReading.trans same.reading⟩
        intro packet' later' here'
        obtain ⟨rfl, rfl⟩ : packet = packet' ∧ later = later' := by simpa [here] using here'
        have pending' : reached.contentsLen = some packet.contents.length := by
          rw [same]
          exact kept
        rw [pending']
        exact short

end Packets

end Peer

end BitcoinNodeTests
