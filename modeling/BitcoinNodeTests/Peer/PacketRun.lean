import BitcoinNodeTests.Peer.Pairing
import BitcoinNodeTests.Peer.Reassembly

/-!
# Runs over the v2 packet stream

The handshake reads up to the version packet and `receive` then reads on; however the
stream is cut, however often a wait ends and a probe is made, the cipher is called
for each packet once and in order, and the calls of `receive` that return give the
readable messages in order.
-/

set_option autoImplicit false

namespace BitcoinNodeTests

open Foundation

namespace Peer

/-- What one read of `rest` for the first packet that gives something does: it ends
past that packet, those before it dropped, or is interrupted inside a packet, those
before it dropped all the same. -/
def ReadsOn {β : Type} (gives : Packet → Option β) (garbage : List Octet)
    (read rest : List Packet) (unsent : List Octet) (peer : Peer) :
    Except Raised β × Peer → Prop
  | (.ok value, reached) =>
      ∃ dropped packet later taken, rest = dropped ++ packet :: later ∧
        (∀ other ∈ dropped, gives other = none) ∧ gives packet = some value ∧
        Tracked garbage (read ++ (dropped ++ [packet])) later unsent reached ∧
        reached.contentsLen = none ∧ Consumed taken peer reached ∧ SameButReading peer reached
  | (.error error, reached) =>
      ∃ dropped later taken, rest = dropped ++ later ∧
        (∀ other ∈ dropped, gives other = none) ∧
        Tracked garbage (read ++ dropped) later unsent reached ∧ NoWholePacket later reached ∧
        Interrupted taken peer reached error ∧ SameButReading peer reached

section Reading

variable {wire : Wire} {cipher : Cipher} {garbage : List Octet} {packets : List Packet}
  {unsent : List Octet} {β : Type} {gives : Packet → Option β}

theorem ReadsOn.drop {read later : List Packet} {packet : Packet} {peer middle : Peer}
    {taken : List Octet} {result : Except Raised β × Peer} (nothing : gives packet = none)
    (consumed : Consumed taken peer middle) (reading : SameButReading peer middle)
    (after : ReadsOn gives garbage (read ++ [packet]) later unsent middle result) :
    ReadsOn gives garbage read (packet :: later) unsent peer result := by
  rcases result with ⟨error | value, reached⟩
  · obtain ⟨dropped, last, more, rfl, unread, tracked, short, interrupted, same⟩ := after
    refine ⟨packet :: dropped, last, taken ++ more, rfl, ?_, ?_, short,
      consumed.interrupted interrupted, reading.trans same⟩
    · intro other member
      rcases List.mem_cons.mp member with rfl | member
      · exact nothing
      · exact unread other member
    · rw [List.append_assoc] at tracked
      exact tracked
  · obtain ⟨dropped, found, last, more, rfl, unread, given, tracked, ended, further, same⟩ := after
    refine ⟨packet :: dropped, found, last, taken ++ more, rfl, ?_, given, ?_, ended,
      consumed.trans further, reading.trans same⟩
    · intro other member
      rcases List.mem_cons.mp member with rfl | member
      · exact nothing
      · exact unread other member
    · rw [List.append_assoc] at tracked
      exact tracked

theorem ReadsOn.stalls {read rest : List Packet} {peer reached : Peer} {error : Raised}
    (deciphers : Deciphers cipher garbage packets) (split : packets = read ++ rest)
    (tracked : Tracked garbage read rest unsent peer)
    (run : receivePacket cipher peer = (.error error, reached)) :
    ReadsOn gives garbage read rest unsent peer (.error error, reached) := by
  obtain ⟨taken, interrupted, after, short, reading⟩ :=
    receivePacket_stalls deciphers split tracked run
  refine ⟨[], rest, taken, rfl, by simp, ?_, short, interrupted, reading⟩
  rw [List.append_nil]
  exact after

theorem receiveV2_of_error {peer reached : Peer} {error : Raised}
    (run : receivePacket cipher peer = (.error error, reached)) :
    receiveV2 wire cipher peer = (.error error, reached) :=
  Intake.receiveV2_of_error run

theorem receiveV2_of_ok {peer reached : Peer} {contents : List Octet} {ignore : Bool}
    (run : receivePacket cipher peer = (.ok (contents, ignore), reached)) :
    receiveV2 wire cipher peer =
      if ignore then receiveV2 wire cipher reached
      else match wire.messageFromContents contents with
        | none => receiveV2 wire cipher reached
        | some (command, payload) => (.ok ⟨reached.magic, command, payload⟩, reached) :=
  Intake.receiveV2_of_ok run

theorem receiveVersionPacket_of_error {peer reached : Peer} {error : Raised}
    (run : receivePacket cipher peer = (.error error, reached)) :
    receiveVersionPacket cipher peer = (.error error, reached) := by
  rw [receiveVersionPacket]
  split
  · rename_i error' reached' run'
    rw [run] at run'
    cases run'
    rfl
  · rename_i run'
    rw [run] at run'
    cases run'

theorem receiveVersionPacket_of_ok {peer reached : Peer} {contents : List Octet} {ignore : Bool}
    (run : receivePacket cipher peer = (.ok (contents, ignore), reached)) :
    receiveVersionPacket cipher peer =
      if ignore then receiveVersionPacket cipher reached else (.ok (), reached) := by
  rw [receiveVersionPacket]
  split
  · rename_i run'
    rw [run] at run'
    cases run'
  · rename_i contents' ignore' reached' run'
    rw [run] at run'
    cases run'
    rfl

/-- What a loop over `receivePacket` does with a packet that gives nothing, with one
that gives a value, and with an error. -/
structure PacketLoop (cipher : Cipher) (magic : List Octet) (gives : Packet → Option β)
    (loop : Action Peer Raised β) : Prop where
  on_error : ∀ peer reached error, receivePacket cipher peer = (.error error, reached) →
    loop peer = (.error error, reached)
  on_packet : ∀ peer reached (packet : Packet), reached.magic = magic →
    receivePacket cipher peer = (.ok (packet.contents, packet.ignore), reached) →
    loop peer = match gives packet with
      | none => loop reached
      | some value => (.ok value, reached)

/-- Such a loop reads on to the first packet that gives a value, by induction on the
octets ahead. -/
theorem PacketLoop.readsOn {loop : Action Peer Raised β} {magic : List Octet}
    (isLoop : PacketLoop cipher magic gives loop) (deciphers : Deciphers cipher garbage packets) :
    ∀ (size : Nat) (peer : Peer) (read rest : List Packet), peer.ahead.length ≤ size →
      peer.magic = magic → packets = read ++ rest → Tracked garbage read rest unsent peer →
      ReadsOn gives garbage read rest unsent peer (loop peer) := by
  intro size
  induction size with
  | zero =>
      intro peer read rest bound _ split tracked
      rcases run : receivePacket cipher peer with ⟨error | answer, reached⟩
      · rw [isLoop.on_error peer reached error run]
        exact ReadsOn.stalls deciphers split tracked run
      · have shrinks := receivePacket_shrinks run
        omega
  | succ size ih =>
      intro peer read rest bound sameMagic split tracked
      rcases run : receivePacket cipher peer with ⟨error | answer, reached⟩
      · rw [isLoop.on_error peer reached error run]
        exact ReadsOn.stalls deciphers split tracked run
      · obtain ⟨packet, later, taken, rfl, rfl, after, ended, consumed, reading⟩ :=
          receivePacket_tracked deciphers split tracked run
        have shrinks := receivePacket_shrinks run
        have magicAfter : reached.magic = magic := by
          rw [reading]
          exact sameMagic
        have splitAfter : packets = (read ++ [packet]) ++ later := by
          rw [split, List.append_assoc]
          rfl
        rw [isLoop.on_packet peer reached packet magicAfter run]
        cases given : gives packet with
        | none =>
            have next := ih reached (read ++ [packet]) later (by omega) magicAfter splitAfter after
            exact ReadsOn.drop given consumed reading next
        | some value =>
            exact ⟨[], packet, later, taken, rfl, by simp, given, after, ended, consumed, reading⟩

theorem receiveV2_packetLoop (wire : Wire) (magic : List Octet) :
    PacketLoop cipher magic (readable wire magic) (receiveV2 wire cipher) := by
  refine ⟨fun _ _ _ run => receiveV2_of_error run, ?_⟩
  intro peer reached packet sameMagic run
  rw [receiveV2_of_ok run]
  cases decoy : packet.ignore with
  | true => simp [readable, decoy]
  | false =>
      cases message : wire.messageFromContents packet.contents with
      | none => simp [readable, decoy, message]
      | some named => simp [readable, decoy, message, sameMagic]

/-- What the version packet gives: its reading ends the handshake, a decoy does not. -/
def ends (packet : Packet) : Option Unit := if packet.ignore then none else some ()

theorem receiveVersionPacket_packetLoop (magic : List Octet) :
    PacketLoop cipher magic ends (receiveVersionPacket cipher) := by
  refine ⟨fun _ _ _ run => receiveVersionPacket_of_error run, ?_⟩
  intro peer reached packet _ run
  rw [receiveVersionPacket_of_ok run]
  cases decoy : packet.ignore with
  | true => simp [ends, decoy]
  | false => simp [ends, decoy]

end Reading

/-! ## One call of `receive` -/

theorem receive_encrypted {wire : Wire} {cipher : Cipher} {peer : Peer}
    (speaksV2 : peer.cipher = some cipher) :
    receive wire peer = match receiveV2 wire cipher peer with
      | (.ok message, reached) => (.ok message, count message reached)
      | (.error error, reached) => (.error error, reached) := by
  have chosen : (intake.peer peer).cipher = some cipher := speaksV2
  simp only [receive, receiveV2, Intake.receive, Action.read_bind, chosen]
  rw [Action.bind_apply]
  rcases intake.receiveV2 wire cipher peer with ⟨_ | message, reached⟩
  · rfl
  · rfl

/-- What the next call of `receive` does with the packets `rest` still to read: give
the message of the first readable one, or be interrupted as the connection was,
holding no whole packet past the unreadable ones it dropped. -/
def NextPacketReceive (wire : Wire) (magic : List Octet) (rest : List Packet) (peer : Peer) : Prop :=
  match receive wire peer with
  | (.ok message, reached) =>
      ∃ dropped packet later taken, rest = dropped ++ packet :: later ∧
        (∀ other ∈ dropped, readable wire magic other = none) ∧
        readable wire magic packet = some message ∧ Consumed taken peer reached
  | (.error error, reached) =>
      ∃ dropped later taken, rest = dropped ++ later ∧
        (∀ other ∈ dropped, readable wire magic other = none) ∧
        Interrupted taken peer reached error ∧ ¬ error.IsValueError ∧
        NoWholePacket later reached

/-- Between calls: the cipher and the stream are where `read` leaves them, and the
record is that of the messages returned. -/
structure Running (wire : Wire) (cipher : Cipher) (magic garbage : List Octet)
    (returned : List Message) (read rest : List Packet) (unsent : List Octet)
    (peer : Peer) : Prop where
  speaksV2 : peer.cipher = some cipher
  sameMagic : peer.magic = magic
  tracked : Tracked garbage read rest unsent peer
  counts : Counts returned peer

section Runs

variable {wire : Wire} {cipher : Cipher} {magic garbage unsent : List Octet}
  {packets : List Packet}

theorem Running.next {returned : List Message} {read rest : List Packet} {peer : Peer}
    (deciphers : Deciphers cipher garbage packets) (split : packets = read ++ rest)
    (running : Running wire cipher magic garbage returned read rest unsent peer) :
    NextPacketReceive wire magic rest peer := by
  obtain ⟨speaksV2, sameMagic, tracked, -⟩ := running
  have reads := (receiveV2_packetLoop wire magic).readsOn deciphers
    peer.ahead.length peer read rest le_rfl sameMagic split tracked
  unfold NextPacketReceive
  rw [receive_encrypted speaksV2]
  rcases run : receiveV2 wire cipher peer with ⟨error | message, reached⟩
  · rw [run] at reads
    obtain ⟨dropped, later, taken, here, unread, -, short, interrupted, -⟩ := reads
    exact ⟨dropped, later, taken, here, unread, interrupted, interrupted.not_valueError, short⟩
  · rw [run] at reads
    obtain ⟨dropped, packet, later, taken, here, unread, given, -, -, consumed, -⟩ := reads
    exact ⟨dropped, packet, later, taken, here, unread, given, consumed.of_same rfl rfl⟩

theorem filterMap_unread {gives : Packet → Option Message} {dropped : List Packet}
    (unread : ∀ other ∈ dropped, gives other = none) : dropped.filterMap gives = [] := by
  rw [List.filterMap_eq_nil_iff]
  exact unread

/-- What one call preserves. -/
theorem perform_running {returned : List Message} {read rest : List Packet} {peer : Peer}
    (deciphers : Deciphers cipher garbage packets) (split : packets = read ++ rest)
    (running : Running wire cipher magic garbage returned read rest unsent peer) (call : Call) :
    ∃ more later, rest = more ++ later ∧
      returnedMessages [(perform wire call peer).1] = more.filterMap (readable wire magic) ∧
      Running wire cipher magic garbage (returned ++ more.filterMap (readable wire magic))
        (read ++ more) later unsent (perform wire call peer).2 := by
  obtain ⟨speaksV2, sameMagic, tracked, counts⟩ := running
  cases call with
  | isConnected =>
      obtain ⟨answer, reached, probed, kept, same⟩ := isConnected_spec peer
      simp only [perform, probed]
      refine ⟨[], rest, rfl, rfl, ?_, ?_, ?_, ?_⟩
      · rw [same]
        exact speaksV2
      · rw [same]
        exact sameMagic
      · rw [List.append_nil]
        exact tracked.same kept same
      · rw [List.filterMap_nil, List.append_nil]
        exact counts.same (by rw [same]) (by rw [same])
  | receive =>
      have reads := (receiveV2_packetLoop wire magic).readsOn deciphers
        peer.ahead.length peer read rest le_rfl sameMagic split tracked
      simp only [perform]
      rw [receive_encrypted speaksV2]
      rcases run : receiveV2 wire cipher peer with ⟨error | message, reached⟩
      · rw [run] at reads
        obtain ⟨dropped, later, taken, here, unread, after, -, -, reading⟩ := reads
        refine ⟨dropped, later, here, ?_, ?_, ?_, after, ?_⟩
        · rw [filterMap_unread unread]
          rfl
        · rw [reading]
          exact speaksV2
        · rw [reading]
          exact sameMagic
        · rw [filterMap_unread unread, List.append_nil]
          exact counts.same (by rw [reading]) (by rw [reading])
      · rw [run] at reads
        obtain ⟨dropped, packet, later, taken, here, unread, given, after, -, -, reading⟩ := reads
        have gives : (dropped ++ [packet]).filterMap (readable wire magic) = [message] := by
          rw [List.filterMap_append, filterMap_unread unread]
          simp [given]
        have countsReached : Counts returned reached :=
          counts.same (by rw [reading]) (by rw [reading])
        refine ⟨dropped ++ [packet], later, ?_, ?_, ?_, ?_, ?_, ?_⟩
        · rw [here, List.append_assoc]
          rfl
        · rw [gives]
          rfl
        · simp only [count]
          rw [reading]
          exact speaksV2
        · simp only [count]
          rw [reading]
          exact sameMagic
        · exact ⟨after.aad_eq, after.position⟩
        · rw [gives]
          exact countsReached.count message

/-- What a run of calls preserves, by induction on the calls. -/
theorem run_running (deciphers : Deciphers cipher garbage packets) (calls : List Call) :
    ∀ (returned : List Message) (read rest : List Packet) (peer : Peer),
      packets = read ++ rest →
      Running wire cipher magic garbage returned read rest unsent peer →
      ∃ more later, rest = more ++ later ∧
        returnedMessages (run wire calls peer).1 = more.filterMap (readable wire magic) ∧
        Running wire cipher magic garbage (returned ++ more.filterMap (readable wire magic))
          (read ++ more) later unsent (run wire calls peer).2 := by
  induction calls with
  | nil =>
      intro returned read rest peer _ running
      refine ⟨[], rest, rfl, rfl, ?_⟩
      rw [List.filterMap_nil, List.append_nil, List.append_nil]
      exact running
  | cons call calls ih =>
      intro returned read rest peer split running
      obtain ⟨first, middle, rfl, firstGiven, between⟩ :=
        perform_running deciphers split running call
      have splitMiddle : packets = (read ++ first) ++ middle := by
        rw [split, List.append_assoc]
      obtain ⟨more, later, rfl, restGiven, after⟩ :=
        ih _ (read ++ first) middle (perform wire call peer).2 splitMiddle between
      refine ⟨first ++ more, later, by rw [List.append_assoc], ?_, ?_⟩
      · rw [returnedMessages_run_cons, firstGiven, restGiven, List.filterMap_append]
      · rw [List.filterMap_append, ← List.append_assoc, ← List.append_assoc]
        exact after

end Runs

/-! ## From the garbage on -/

def session (wire : Wire) (cipher : Cipher) (calls : List Call) (peer : Peer) :
    List Event × Peer :=
  match receiveVersionPacket cipher peer with
  | (.ok _, ready) => run wire calls ready
  | (.error error, reached) => ([.raised error], reached)

/-- The packets after the version packet, which is the first that is no decoy. -/
def afterVersion : List Packet → List Packet
  | [] => []
  | packet :: rest => if packet.ignore then afterVersion rest else rest

theorem afterVersion_decoys {decoys : List Packet} (unread : ∀ other ∈ decoys, ends other = none)
    (rest : List Packet) : afterVersion (decoys ++ rest) = afterVersion rest := by
  induction decoys with
  | nil => rfl
  | cons packet decoys ih =>
      have decoy : packet.ignore = true := by simpa [ends] using unread packet (by simp)
      rw [List.cons_append, afterVersion, if_pos decoy]
      exact ih fun other member => unread other (by simp [member])

/-- A v2 peer that has taken the garbage, its cipher not yet called to decrypt. -/
structure Garbled (cipher : Cipher) (garbage : List Octet) (peer : Peer) : Prop where
  speaksV2 : peer.cipher = some cipher
  aad_eq : peer.aad = garbage
  notBegun : peer.contentsLen = none
  notCalled : peer.calls = []
  counts : Counts [] peer

/-- The packets read were each decrypted by one call for the length and one for the
ciphertext, in order, the garbage authenticating the first; the messages returned are
the readable ones past the version packet, in order, and the record is theirs; and
where the handshake returned, the next call does what `NextPacketReceive` says. -/
theorem session_drives_cipher {wire : Wire} {cipher : Cipher} {garbage : List Octet}
    {packets : List Packet} {unsent : List Octet} {peer : Peer}
    (deciphers : Deciphers cipher garbage packets) (garbled : Garbled cipher garbage peer)
    (arriving : peer.ahead ++ unsent = packetsOctets packets) (calls : List Call) :
    ∃ read rest, packets = read ++ rest ∧
      Tracked garbage read rest unsent (session wire cipher calls peer).2 ∧
      returnedMessages (session wire cipher calls peer).1 =
        (afterVersion read).filterMap (readable wire peer.magic) ∧
      Counts ((afterVersion read).filterMap (readable wire peer.magic))
        (session wire cipher calls peer).2 ∧
      ((∃ ready, receiveVersionPacket cipher peer = (.ok (), ready)) →
        NextPacketReceive wire peer.magic rest (session wire cipher calls peer).2) := by
  obtain ⟨speaksV2, aad, notBegun, notCalled, counts⟩ := garbled
  have start : Tracked garbage [] packets unsent peer := by
    refine ⟨aad, ?_⟩
    unfold Position
    rw [notBegun]
    exact ⟨notCalled, arriving⟩
  have reads := (receiveVersionPacket_packetLoop peer.magic).readsOn deciphers
    peer.ahead.length peer [] packets le_rfl rfl rfl start
  unfold session
  rcases versionRun : receiveVersionPacket cipher peer with ⟨error | done, ready⟩
  · rw [versionRun] at reads
    obtain ⟨decoys, rest, taken, rfl, unread, after, -, -, reading⟩ := reads
    have nothing : afterVersion decoys = [] := by
      have dropped := afterVersion_decoys unread []
      rw [List.append_nil] at dropped
      exact dropped
    refine ⟨decoys, rest, rfl, after, ?_, ?_, ?_⟩
    · rw [nothing]
      rfl
    · rw [nothing]
      exact counts.same (by rw [reading]) (by rw [reading])
    · rintro ⟨other, returned⟩
      cases returned
  · rw [versionRun] at reads
    obtain ⟨decoys, version, later, taken, rfl, unread, given, after, -, -, reading⟩ := reads
    have plain : version.ignore = false := by
      cases decoy : version.ignore with
      | false => rfl
      | true => simp [ends, decoy] at given
    have running : Running wire cipher peer.magic garbage [] (decoys ++ [version]) later unsent
        ready := by
      refine ⟨?_, by rw [reading], after, ?_⟩
      · rw [reading]
        exact speaksV2
      · exact counts.same (by rw [reading]) (by rw [reading])
    have splitLater : decoys ++ version :: later = (decoys ++ [version]) ++ later := by
      rw [List.append_assoc]
      rfl
    obtain ⟨more, rest, rfl, returned, final⟩ :=
      run_running deciphers calls [] (decoys ++ [version]) later ready splitLater running
    have past : afterVersion ((decoys ++ [version]) ++ more) = more := by
      rw [List.append_assoc, afterVersion_decoys unread]
      simp [afterVersion, plain]
    refine ⟨(decoys ++ [version]) ++ more, rest, ?_, final.tracked, ?_, ?_, ?_⟩
    · rw [List.append_assoc, List.append_assoc]
      rfl
    · rw [past]
      exact returned
    · rw [past]
      exact final.counts
    · intro _
      refine final.next deciphers ?_
      rw [List.append_assoc, List.append_assoc]
      rfl

/-- A decoy and the version packet, then a `ping`, contents refused, another decoy and a
`pong`. -/
def pingsEncrypted : List Encryption :=
  [⟨[0, 0], [0x67, 0x61], true⟩, ⟨[], [], false⟩, ⟨[18, 1, 2, 3, 4, 5, 6, 7, 8], [], false⟩,
    ⟨[0xff], [], false⟩, ⟨[], [], true⟩, ⟨[19, 1, 2, 3, 4, 5, 6, 7, 8], [], false⟩]

def pingPackets : List Packet :=
  encryptedPackets (plainCipher (List.replicate 16 1) (List.replicate 16 2)) pingsEncrypted

/-- Waits end inside the first length and inside the `ping`; the last octets have yet
to be sent. -/
def pingPeer : Peer :=
  let octets := packetsOctets pingPackets
  { adopt regtestMagic true (Arrival.putBack ((octets.drop 1).take 60)
      (.quiet :: Arrival.putBack ((octets.drop 61).take 80) [.quiet])) with
    buffer := octets.take 1
    cipher := some (plainCipher (List.replicate 16 2) (List.replicate 16 1))
    aad := [0x67, 0x61] }

theorem session_drives_cipher_pings :
    ∃ read rest, pingPackets = read ++ rest ∧
      Tracked [0x67, 0x61] read rest ((packetsOctets pingPackets).drop 141)
        (session fewWire (plainCipher (List.replicate 16 2) (List.replicate 16 1))
          [.receive, .isConnected, .receive, .receive] pingPeer).2 ∧
      returnedMessages (session fewWire (plainCipher (List.replicate 16 2) (List.replicate 16 1))
          [.receive, .isConnected, .receive, .receive] pingPeer).1 =
        (afterVersion read).filterMap (readable fewWire regtestMagic) ∧
      Counts ((afterVersion read).filterMap (readable fewWire regtestMagic))
        (session fewWire (plainCipher (List.replicate 16 2) (List.replicate 16 1))
          [.receive, .isConnected, .receive, .receive] pingPeer).2 ∧
      ((∃ ready, receiveVersionPacket (plainCipher (List.replicate 16 2) (List.replicate 16 1))
          pingPeer = (.ok (), ready)) →
        NextPacketReceive fewWire regtestMagic rest
          (session fewWire (plainCipher (List.replicate 16 2) (List.replicate 16 1))
            [.receive, .isConnected, .receive, .receive] pingPeer).2) :=
  session_drives_cipher
    ((plainCipher_paired _ _ _ _ rfl).deciphers [0x67, 0x61] pingsEncrypted
      ⟨rfl, by decide⟩ (by decide))
    ⟨rfl, rfl, rfl, rfl, ⟨fun _ => rfl, fun _ => rfl⟩⟩ rfl
    [.receive, .isConnected, .receive, .receive]

end Peer

end BitcoinNodeTests
