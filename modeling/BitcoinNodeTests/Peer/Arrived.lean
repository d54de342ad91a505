import BitcoinNodeTests.Peer.Delivered
import BitcoinNodeTests.Peer.PacketRun

/-!
# Messages that have arrived, on either transport

`Arrived` says which messages stand whole in what the connection brings before it pauses: their
frames on v1; on v2 the packets that give them, with decoys and refused contents anywhere between.
One `receive` takes the first of them, and a `send` takes none.
-/

set_option autoImplicit false

namespace BitcoinNodeTests

open Foundation

namespace Peer

/-- The octets of the packets still to be read, the length of the first being read already
where a packet is begun. -/
def owed (peer : Peer) (packets : List Packet) : List Octet :=
  match peer.contentsLen with
  | none => packetsOctets packets
  | some _ => (packetsOctets packets).drop LENGTH_LEN

/-- The messages stand whole in the octets that arrive before the connection pauses. -/
inductive Arrived (wire : Wire) : List Message → Peer → Prop where
  | plain {valid : Message → Prop} {messages : List Message} {peer : Peer}
      (code : PrefixCode wire valid) (speaksV1 : peer.cipher = none)
      (under : ∀ message ∈ messages, valid message ∧ message.magic = peer.magic)
      (whole : serializeAll wire messages <+: peer.promptAhead) : Arrived wire messages peer
  | encrypted {cipher : Cipher} {garbage unsent : List Octet} {packets read rest more : List Packet}
      {peer : Peer} (deciphers : Deciphers cipher garbage packets)
      (split : packets = read ++ (rest ++ more)) (speaksV2 : peer.cipher = some cipher)
      (tracked : Tracked garbage read (rest ++ more) unsent peer)
      (whole : owed peer rest <+: peer.promptAhead) :
      Arrived wire (rest.filterMap (readable wire peer.magic)) peer

section Packets

variable {cipher : Cipher} {garbage unsent : List Octet} {packets read rest more : List Packet}
  {peer reached : Peer} {gives : Packet → Option Message}

theorem owed_append (deciphers : Deciphers cipher garbage packets)
    (split : packets = read ++ (rest ++ more)) (begun : peer.contentsLen = none ∨ rest ≠ []) :
    peer.owed (rest ++ more) = peer.owed rest ++ packetsOctets more := by
  have octets : packetsOctets (rest ++ more) = packetsOctets rest ++ packetsOctets more :=
    List.flatMap_append
  unfold owed
  rw [octets]
  cases pending : peer.contentsLen with
  | none => rfl
  | some length =>
      cases rest with
      | nil =>
          rw [pending] at begun
          rcases begun with impossible | impossible
          · cases impossible
          · exact absurd rfl impossible
      | cons packet rest =>
          have size := (deciphers read packet (rest ++ more) split).1
          refine List.drop_append_of_le_length ?_
          simp only [packetsOctets, List.flatMap_cons, Packet.octets, List.length_append, size]
          omega

theorem Tracked.ahead_owed (deciphers : Deciphers cipher garbage packets)
    (split : packets = read ++ rest) (tracked : Tracked garbage read rest unsent peer) :
    peer.ahead ++ unsent = peer.owed rest := by
  have position := tracked.position
  unfold Position at position
  unfold owed
  cases pending : peer.contentsLen with
  | none =>
      rw [pending] at position
      exact position.2
  | some length =>
      rw [pending] at position
      obtain ⟨packet, later, rfl, -, -, stream⟩ := position
      have size := (deciphers read packet later split).1
      have octets : packetsOctets (packet :: later) =
          packet.lengthOctets ++ (packet.body ++ packetsOctets later) := by
        simp only [packetsOctets, List.flatMap_cons, Packet.octets, List.append_assoc]
      dsimp only
      rw [stream, octets, ← size, List.drop_left]

/-- Packets that give nothing are not all of those that give something. -/
theorem split_dropped {dropped later : List Packet} (given : rest.filterMap gives ≠ [])
    (same : rest ++ more = dropped ++ later) (unread : ∀ other ∈ dropped, gives other = none) :
    ∃ packet tail, rest = dropped ++ packet :: tail ∧ later = packet :: tail ++ more := by
  rcases List.append_eq_append_iff.mp same with ⟨front, isDropped, -⟩ | ⟨tail, isRest, isLater⟩
  · refine absurd (filterMap_unread fun other member => unread other ?_) given
    rw [isDropped]
    exact List.mem_append_left _ member
  · cases tail with
    | nil =>
        rw [List.append_nil] at isRest
        rw [isRest] at given
        exact absurd (filterMap_unread unread) given
    | cons packet tail => exact ⟨packet, tail, isRest, isLater⟩

/-- What was consumed is what was owed for the packets read meanwhile. -/
theorem owed_consumed (deciphers : Deciphers cipher garbage packets) {first tail : List Packet}
    {octets : List Octet} (split : packets = read ++ (first ++ tail ++ more))
    (begun : first ++ tail ≠ []) (ends : reached.contentsLen = none ∨ tail ≠ [])
    (tracked : Tracked garbage read (first ++ tail ++ more) unsent peer)
    (after : Tracked garbage (read ++ first) (tail ++ more) unsent reached)
    (front : peer.ahead = octets ++ reached.ahead) :
    peer.owed (first ++ tail) = octets ++ reached.owed tail := by
  have splitAfter : packets = read ++ first ++ (tail ++ more) := by
    rw [split]
    simp only [List.append_assoc]
  have before := tracked.ahead_owed deciphers split
  have afterwards := after.ahead_owed deciphers splitAfter
  rw [owed_append deciphers split (.inr begun)] at before
  rw [owed_append deciphers splitAfter ends] at afterwards
  refine @List.append_cancel_right _ _ (packetsOctets more) _ ?_
  rw [← before, List.append_assoc, ← afterwards, front, List.append_assoc]

/-- What is owed for a packet alone is too much for a peer that does not hold it whole. -/
theorem NoWholePacket.owed_not_front (deciphers : Deciphers cipher garbage packets)
    {packet : Packet} (split : packets = read ++ (packet :: rest ++ more))
    (short : NoWholePacket (packet :: rest ++ more) peer) :
    ¬ peer.owed (packet :: rest) <+: peer.buffer := by
  intro front
  have few := short packet (rest ++ more) rfl
  have size := (deciphers read packet (rest ++ more) split).1
  have long := front.length_le
  unfold owed at long
  cases pending : peer.contentsLen with
  | none =>
      rw [pending] at few long
      simp only [packetsOctets, List.flatMap_cons, List.length_append] at few long
      omega
  | some length =>
      rw [pending] at few long
      simp only [packetsOctets, List.flatMap_cons, Packet.octets, List.length_drop,
        List.length_append, size] at few long
      omega

end Packets

section Receive

variable {wire : Wire} {peer : Peer}

theorem plain_receive {valid : Message → Prop} {message : Message} {later : List Message}
    (code : PrefixCode wire valid) (speaksV1 : peer.cipher = none)
    (under : ∀ other ∈ message :: later, valid other ∧ other.magic = peer.magic)
    (whole : serializeAll wire (message :: later) <+: peer.promptAhead) :
    ∃ read, receive wire peer = (.ok message, count message read) ∧ SameButReading peer read ∧
      Arrived wire later (count message read) := by
  obtain ⟨isValid, sameMagic⟩ := under message List.mem_cons_self
  obtain ⟨tail, whole⟩ := whole
  rw [serializeAll, List.flatMap_cons, List.append_assoc] at whole
  obtain ⟨read, run, consumed, same⟩ :=
    receive_delivers code isValid sameMagic speaksV1 whole.symm
  have rests : read.promptAhead = serializeAll wire later ++ tail := by
    refine @List.append_cancel_left _ (wire.serialize message) _ _ ?_
    rw [← consumed.prompt_eq, ← whole]
    rfl
  refine ⟨read, run, same.reading, .plain code ?_ (fun other member => ?_) ⟨tail, rests.symm⟩⟩
  · rw [same]
    exact speaksV1
  · rw [same]
    exact under other (List.mem_cons_of_mem _ member)

/-- On v2 the packets are read up to the first that gives a message; it cannot stall before. -/
theorem encrypted_receive {cipher : Cipher} {garbage unsent : List Octet}
    {packets read rest more : List Packet} {message : Message} {later : List Message}
    (deciphers : Deciphers cipher garbage packets) (split : packets = read ++ (rest ++ more))
    (speaksV2 : peer.cipher = some cipher) (tracked : Tracked garbage read (rest ++ more) unsent peer)
    (whole : owed peer rest <+: peer.promptAhead)
    (isMessages : message :: later = rest.filterMap (readable wire peer.magic)) :
    ∃ read, receive wire peer = (.ok message, count message read) ∧ SameButReading peer read ∧
      Arrived wire later (count message read) := by
  have gives : rest.filterMap (readable wire peer.magic) ≠ [] := by
    rw [← isMessages]
    nofun
  have reads := (receiveV2_packetLoop wire peer.magic).readsOn deciphers
    peer.ahead.length peer read (rest ++ more) le_rfl rfl split tracked
  rw [receive_encrypted speaksV2]
  rcases run : receiveV2 wire cipher peer with ⟨error | found, reached⟩
  · rw [run] at reads
    obtain ⟨dropped, later', taken, same, unread, after, short, interrupted, reading⟩ := reads
    obtain ⟨packet, tail, rfl, rfl⟩ := split_dropped gives same unread
    have owes := owed_consumed deciphers split (by simp) (.inr (by simp)) tracked after
      interrupted.ahead_eq
    have splitAfter : packets = read ++ dropped ++ (packet :: tail ++ more) := by
      rw [split]
      simp only [List.append_assoc]
    rw [owes, interrupted.buffer_eq, List.prefix_append_right_inj] at whole
    exact absurd whole (NoWholePacket.owed_not_front deciphers splitAfter short)
  · rw [run] at reads
    obtain ⟨dropped, packet, later', taken, same, unread, given, after, ended, consumed,
      reading⟩ := reads
    obtain ⟨first, tail, rfl, isLater⟩ := split_dropped gives same unread
    obtain ⟨rfl, rfl⟩ := List.cons.inj isLater
    have isRest : dropped ++ packet :: tail = dropped ++ [packet] ++ tail := by simp
    have filtered : (dropped ++ packet :: tail).filterMap (readable wire peer.magic) =
        found :: tail.filterMap (readable wire peer.magic) := by
      rw [List.filterMap_append, filterMap_unread unread, List.filterMap_cons, given]
      rfl
    rw [filtered] at isMessages
    obtain ⟨rfl, rfl⟩ := List.cons.inj isMessages
    rw [isRest] at split tracked whole
    have owes := owed_consumed deciphers split (by simp) (.inl ended) tracked after
      consumed.ahead_eq
    rw [owes, consumed.prompt_eq, List.prefix_append_right_inj] at whole
    have sameMagic : (count message reached).magic = peer.magic := by
      rw [count, reading]
    refine ⟨reached, rfl, reading, ?_⟩
    rw [← sameMagic]
    have splitAfter : packets = read ++ (dropped ++ [packet]) ++ (tail ++ more) := by
      rw [split]
      simp only [List.append_assoc]
    have stays : (count message reached).cipher = some cipher := by
      rw [count, reading]
      exact speaksV2
    have trackedAfter : Tracked garbage (read ++ (dropped ++ [packet])) (tail ++ more) unsent
        (count message reached) := ⟨after.aad_eq, after.position⟩
    exact .encrypted deciphers splitAfter stays trackedAfter whole

/-- The first of the messages that have arrived is what the next `receive` returns, and the
others have arrived behind it. -/
theorem Arrived.receive {message : Message} {later : List Message}
    (arrived : Arrived wire (message :: later) peer) :
    ∃ read, receive wire peer = (.ok message, count message read) ∧ SameButReading peer read ∧
      Arrived wire later (count message read) := by
  generalize isMessages : message :: later = messages at arrived
  cases arrived with
  | plain code speaksV1 under whole =>
      subst isMessages
      exact plain_receive code speaksV1 under whole
  | encrypted deciphers split speaksV2 tracked whole =>
      exact encrypted_receive deciphers split speaksV2 tracked whole isMessages

end Receive

end Peer

end BitcoinNodeTests
