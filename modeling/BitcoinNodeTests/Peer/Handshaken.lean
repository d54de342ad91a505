import BitcoinNodeTests.Peer.Opening

/-!
# One side of the handshake

Given a front of what the other side sends, the handshake returns exactly where the front
holds all of the other side's handshake, having consumed that and no more; short of it, it
waits, having sent its key and garbage before it has the other's key and everything after.
-/

set_option autoImplicit false

namespace BitcoinNodeTests

open Foundation

/-- The octets of a side's handshake: its key and its garbage, then the terminator, the decoys
and the version packet. -/
def handshakeOctets (cipher : Cipher) (secrets : Secrets) : List Octet :=
  secrets.ellOurs ++ secrets.garbage ++
    (cipher.sendGarbageTerminator ++ packetsOctets (encryptedPackets cipher secrets.encryptions))

def sideOctets (cipher : Cipher) (secrets : Secrets) (said : List Encryption) : List Octet :=
  handshakeOctets cipher secrets ++ packetsOctets (packetsAfter cipher secrets.encryptions said)

theorem sideOctets_eq (cipher : Cipher) (secrets : Secrets) (said : List Encryption) :
    sideOctets cipher secrets said = secrets.ellOurs ++ (secrets.garbage ++
      (cipher.sendGarbageTerminator ++
        packetsOctets (encryptedPackets cipher (secrets.encryptions ++ said)))) := by
  unfold sideOctets handshakeOctets encryptedPackets
  rw [packetsAfter_append, packetsOctets_append, List.nil_append]
  simp only [List.append_assoc]

namespace Peer

section Packets

variable {cipher : Cipher} {garbage : List Octet} {hand app : List Packet}
  {unsent : List Octet} {peer reached : Peer}

/-- Short of a stream by more than its second part is short of its first. -/
theorem short_of_stream {ahead first second : List Octet}
    (stream : ahead ++ unsent = first ++ second) (short : second.length < unsent.length) :
    ahead.length < first.length := by
  have sizes := congrArg List.length stream
  simp only [List.length_append] at sizes
  omega

/-- Inside the packets left, the octets held do not reach what comes after the first. -/
theorem Tracked.short {read packets after : List Packet} {packet : Packet}
    (tracked : Tracked garbage read packets unsent reached) (held : reached.ahead = reached.buffer)
    (noWhole : NoWholePacket packets reached) (here : packets = packet :: after) :
    (packetsOctets after).length < unsent.length := by
  have short := noWhole packet after here
  have position := tracked.position
  unfold Position at position
  cases pending : reached.contentsLen with
  | none =>
      rw [pending] at position short
      have sizes := congrArg List.length position.2
      rw [held, here] at sizes
      simp only [packetsOctets, List.flatMap_cons, List.length_append] at sizes short
      simp only [packetsOctets]
      omega
  | some length =>
      rw [pending] at position short
      obtain ⟨other, later, isHere, -, -, stream⟩ := position
      rw [here] at isHere
      cases isHere
      have sizes := congrArg List.length stream
      rw [held] at sizes
      simp only [List.length_append] at sizes
      simp only at short
      omega

theorem afterVersion_suffix (packets : List Packet) : afterVersion packets <:+ packets := by
  induction packets with
  | nil => exact List.suffix_refl []
  | cons packet rest ih =>
      unfold afterVersion
      split
      · exact ih.trans (List.suffix_cons packet rest)
      · exact List.suffix_cons packet rest

/-- The end of the handshake: the packets up to the first that is no decoy. -/
theorem receiveVersionPacket_ends (deciphers : Deciphers cipher garbage (hand ++ app))
    (version : ∀ rest, afterVersion (hand ++ rest) = rest) (prompt : Prompt peer)
    (tracked : Tracked garbage [] (hand ++ app) unsent peer) (boundary : peer.contentsLen = none) :
    match receiveVersionPacket cipher peer with
    | (.ok (), ready) => Consumed (packetsOctets hand) peer ready ∧
        Tracked garbage hand app unsent ready ∧ ready.contentsLen = none ∧
        SameButReading peer ready
    | (.error error, reached) => error = .waiting ∧
        peer.ahead.length < (packetsOctets hand).length ∧ SameButReading peer reached := by
  have stream := (tracked.boundary boundary).2
  rw [packetsOctets_append] at stream
  have reads := (receiveVersionPacket_packetLoop peer.magic).readsOn deciphers
    peer.ahead.length peer [] (hand ++ app) le_rfl rfl rfl tracked
  rcases run : receiveVersionPacket cipher peer with ⟨error | done, reached⟩
  · rw [run] at reads
    obtain ⟨dropped, later, taken, parts, unread, after, noWhole, interrupted, reading⟩ := reads
    obtain ⟨isWaiting, held⟩ := prompt.interrupted interrupted
    refine ⟨isWaiting, short_of_stream stream ?_, reading⟩
    have past : afterVersion later = app := by
      rw [← afterVersion_decoys unread, ← parts, version]
    cases here : later with
    | nil =>
        -- the version packet is not among the decoys
        rw [here, List.append_nil] at parts
        have none : ∀ other ∈ hand, ends other = none := fun other member =>
          unread other (parts ▸ List.mem_append_left _ member)
        have nothing := version [⟨[], [], [], true⟩]
        rw [afterVersion_decoys none] at nothing
        cases nothing
    | cons packet rest =>
        refine Nat.lt_of_le_of_lt ?_ (after.short held noWhole here)
        have suffix : app <:+ rest := by
          rw [← past, here]
          unfold afterVersion
          split
          · exact afterVersion_suffix rest
          · exact List.suffix_refl rest
        obtain ⟨front, rfl⟩ := suffix
        rw [packetsOctets_append, List.length_append]
        omega
  · rw [run] at reads
    obtain ⟨dropped, packet, later, taken, parts, unread, given, after, ended, consumed, reading⟩ :=
      reads
    have plain : packet.ignore = false := by
      unfold ends at given
      split at given
      · cases given
      · simp_all
    have past := version app
    rw [parts, afterVersion_decoys unread, afterVersion, plain] at past
    obtain rfl : later = app := past
    have isHand : dropped ++ [packet] = hand := by
      refine @List.append_cancel_right _ _ later _ ?_
      rw [parts, List.append_assoc]
      rfl
    rw [List.nil_append, isHand] at after
    have rest := (after.boundary ended).2
    have isTaken : taken = packetsOctets hand := by
      refine @List.append_cancel_right _ _ (reached.ahead ++ unsent) _ ?_
      rw [← List.append_assoc, ← consumed.ahead_eq, stream, rest]
    exact ⟨isTaken ▸ consumed, after, ended, reading⟩

end Packets

/-! ## The handshake of a connection that speaks v2 -/

section Handshake

variable {newCipher : NewCipher} {own theirs : Secrets} {cipher theirCipher : Cipher}
  {said : List Encryption} {unsent : List Octet} {peer : Peer}

structure Fresh (peer : Peer) : Prop where
  notBegun : peer.contentsLen = none
  notCalled : peer.calls = []
  unsaid : peer.sent = []
  counts : Counts [] peer

/-- The handshake waits, short of the other side's. -/
structure HandshakeWaits (cipher theirCipher : Cipher) (own theirs : Secrets) (peer reached : Peer)
    (error : Raised) : Prop where
  isWaiting : error = .waiting
  short : peer.ahead.length < (handshakeOctets theirCipher theirs).length
  opened : peer.ahead.length < ELL_SIZE →
    reached.sent = [] ∧ peer.dialled = false ∨ reached.sent = own.ellOurs ++ own.garbage
  sent : ELL_SIZE ≤ peer.ahead.length → reached.sent = handshakeOctets cipher own

/-- The handshake has returned, all of the other side's consumed and nothing after it. -/
structure HandshakeDone (cipher theirCipher : Cipher) (own theirs : Secrets)
    (said : List Encryption) (unsent : List Octet) (peer ready : Peer) : Prop where
  speaksV2 : ready.cipher = some cipher
  sameMagic : ready.magic = peer.magic
  sent : ready.sent = handshakeOctets cipher own
  encrypted : ready.encrypted = own.encryptions
  consumed : Consumed (handshakeOctets theirCipher theirs) peer ready
  tracked : Tracked theirs.garbage (encryptedPackets theirCipher theirs.encryptions)
    (packetsAfter theirCipher theirs.encryptions said) unsent ready
  boundary : ready.contentsLen = none
  counts : Counts [] ready

theorem encryptedPackets_append (cipher : Cipher) (secrets : Secrets) (said : List Encryption) :
    encryptedPackets cipher (secrets.encryptions ++ said) =
      encryptedPackets cipher secrets.encryptions ++
        packetsAfter cipher secrets.encryptions said := by
  unfold encryptedPackets
  rw [packetsAfter_append, List.nil_append]

theorem handshakeOctets_length (cipher : Cipher) (secrets : Secrets) :
    (handshakeOctets cipher secrets).length = ELL_SIZE +
      (secrets.garbage ++ cipher.sendGarbageTerminator ++
        packetsOctets (encryptedPackets cipher secrets.encryptions)).length := by
  rw [← secrets.ellSize]
  simp only [handshakeOctets, List.length_append]
  omega

/-- Behind the garbage and its terminator the peer stands before the first packet. -/
theorem armed_tracked {taken : Peer} (notBegun : peer.contentsLen = none)
    (notCalled : peer.calls = [])
    (stream : peer.ahead ++ unsent = theirs.garbage ++ (theirCipher.sendGarbageTerminator ++
      packetsOctets (encryptedPackets theirCipher (theirs.encryptions ++ said))))
    (consumed : Consumed (theirs.garbage ++ theirCipher.sendGarbageTerminator) peer taken)
    (same : SameBut peer taken) :
    Tracked theirs.garbage [] (encryptedPackets theirCipher (theirs.encryptions ++ said)) unsent
        { taken with aad := theirs.garbage } ∧
      taken.contentsLen = none ∧ SameButReading peer { taken with aad := theirs.garbage } := by
  have boundary : taken.contentsLen = none := by
    rw [same]
    exact notBegun
  refine ⟨⟨rfl, ?_⟩, boundary, ?_⟩
  · unfold Position
    dsimp only
    rw [boundary]
    refine ⟨?_, ?_⟩
    · rw [same]
      exact notCalled
    · refine @List.append_cancel_left _ (theirs.garbage ++ theirCipher.sendGarbageTerminator) _ _ ?_
      rw [← List.append_assoc]
      change (_ ++ taken.ahead) ++ _ = _
      rw [← consumed.ahead_eq, stream, List.append_assoc]
  · have reading := same.reading
    unfold SameButReading at reading ⊢
    rw [reading]

/-- What is left of the handshake once the packets are sent. -/
theorem garbage_ends (paired : Paired theirCipher cipher)
    (unforeseen : Unforeseen theirCipher.sendGarbageTerminator theirs.garbage)
    (plain : ∀ encryption ∈ said, encryption.aad = [] ∧ Encryptable encryption)
    (notBegun : peer.contentsLen = none) (notCalled : peer.calls = []) (prompt : Prompt peer)
    (stream : peer.ahead ++ unsent = theirs.garbage ++ (theirCipher.sendGarbageTerminator ++
      packetsOctets (encryptedPackets theirCipher (theirs.encryptions ++ said)))) :
    match (takeGarbage cipher.recvGarbageTerminator >>= fun garbage =>
        Action.update (fun peer => { peer with aad := garbage }) >>= fun _ =>
          receiveVersionPacket cipher) peer with
    | (.ok (), ready) =>
        Consumed (theirs.garbage ++ theirCipher.sendGarbageTerminator ++
          packetsOctets (encryptedPackets theirCipher theirs.encryptions)) peer ready ∧
        Tracked theirs.garbage (encryptedPackets theirCipher theirs.encryptions)
          (packetsAfter theirCipher theirs.encryptions said) unsent ready ∧
        ready.contentsLen = none ∧ SameButReading peer ready
    | (.error error, reached) => error = .waiting ∧
        peer.ahead.length < (theirs.garbage ++ theirCipher.sendGarbageTerminator ++
          packetsOctets (encryptedPackets theirCipher theirs.encryptions)).length ∧
        SameButReading peer reached := by
  have ends := takeGarbage_ends theirs.garbageBound unforeseen prompt stream
  rw [paired.sameTerminator]
  rcases run : takeGarbage theirCipher.sendGarbageTerminator peer with ⟨error | garbage, taken⟩
  · rw [run] at ends
    obtain ⟨isWaiting, short, same⟩ := ends
    rw [Action.bind_of_error _ run]
    refine ⟨isWaiting, ?_, same.reading⟩
    rw [List.length_append]
    omega
  · rw [run] at ends
    obtain ⟨rfl, consumed, same⟩ := ends
    rw [Action.bind_of_ok _ run, Action.update_bind]
    have armedConsumed : Consumed (theirs.garbage ++ theirCipher.sendGarbageTerminator) peer
        { taken with aad := theirs.garbage } := consumed.of_same rfl rfl
    obtain ⟨tracked, boundary, armedReading⟩ := armed_tracked notBegun notCalled stream consumed same
    have deciphers := paired.deciphers theirs.garbage (theirs.encryptions ++ said)
      (encryptions_garbageFirst theirs fun encryption member => (plain encryption member).1)
      (fun encryption member => (List.mem_append.mp member).elim
        (encryptionsOf_encryptable theirs.decoyBound encryption)
        fun inSaid => (plain encryption inSaid).2)
    rw [encryptedPackets_append] at deciphers tracked
    have version (rest : List Packet) :
        afterVersion (encryptedPackets theirCipher theirs.encryptions ++ rest) = rest :=
      afterVersion_encryptions theirCipher theirs.garbage theirs.decoys [] rest
    have ends := receiveVersionPacket_ends deciphers version (prompt.consumed armedConsumed)
      tracked boundary
    rcases versionRun : receiveVersionPacket cipher { taken with aad := theirs.garbage } with
      ⟨error | ⟨⟩, reached⟩
    · rw [versionRun] at ends
      obtain ⟨isWaiting, short, reading⟩ := ends
      refine ⟨isWaiting, ?_, armedReading.trans reading⟩
      rw [armedConsumed.ahead_eq]
      simp only [List.length_append] at short ⊢
      omega
    · rw [versionRun] at ends
      obtain ⟨further, after, ended, reading⟩ := ends
      exact ⟨armedConsumed.trans further, after, ended, armedReading.trans reading⟩

/-- The peer has the other side's key, and has sent all of its handshake. -/
structure Packed (cipher : Cipher) (own theirs : Secrets) (peer packed : Peer) : Prop where
  speaksV2 : packed.cipher = some cipher
  sameMagic : packed.magic = peer.magic
  sent : packed.sent = handshakeOctets cipher own
  encrypted : packed.encrypted = own.encryptions
  consumed : Consumed theirs.ellOurs peer packed
  notBegun : packed.contentsLen = none
  notCalled : packed.calls = []
  counts : Counts [] packed

/-- What is left of the handshake then. -/
theorem Packed.ends {packed : Peer} (packs : Packed cipher own theirs peer packed)
    (paired : Paired theirCipher cipher)
    (unforeseen : Unforeseen theirCipher.sendGarbageTerminator theirs.garbage)
    (plain : ∀ encryption ∈ said, encryption.aad = [] ∧ Encryptable encryption)
    (prompt : Prompt peer) (stream : peer.ahead ++ unsent = sideOctets theirCipher theirs said) :
    match (takeGarbage cipher.recvGarbageTerminator >>= fun garbage =>
        Action.update (fun peer => { peer with aad := garbage }) >>= fun _ =>
          receiveVersionPacket cipher) packed with
    | (.ok (), ready) => HandshakeDone cipher theirCipher own theirs said unsent peer ready
    | (.error error, reached) =>
        HandshakeWaits cipher theirCipher own theirs peer reached error := by
  rw [sideOctets_eq] at stream
  have later : packed.ahead ++ unsent = theirs.garbage ++ (theirCipher.sendGarbageTerminator ++
      packetsOctets (encryptedPackets theirCipher (theirs.encryptions ++ said))) := by
    refine @List.append_cancel_left _ theirs.ellOurs _ _ ?_
    rw [← List.append_assoc, ← packs.consumed.ahead_eq, stream]
  have ahead : peer.ahead.length = ELL_SIZE + packed.ahead.length := by
    rw [packs.consumed.ahead_eq, List.length_append, theirs.ellSize]
  have ends := garbage_ends paired unforeseen plain packs.notBegun packs.notCalled
    (prompt.consumed packs.consumed) later
  rcases run : (takeGarbage cipher.recvGarbageTerminator >>= fun garbage =>
      Action.update (fun peer => { peer with aad := garbage }) >>= fun _ =>
        receiveVersionPacket cipher) packed with ⟨error | ⟨⟩, reached⟩
  · rw [run] at ends
    obtain ⟨isWaiting, short, reading⟩ := ends
    have few := handshakeOctets_length theirCipher theirs
    refine ⟨isWaiting, by omega, fun few => by omega, fun _ => ?_⟩
    rw [reading]
    exact packs.sent
  · rw [run] at ends
    obtain ⟨consumedRest, tracked, boundary, reading⟩ := ends
    have all := packs.consumed.trans consumedRest
    rw [← List.append_assoc, ← List.append_assoc, List.append_assoc (theirs.ellOurs ++ _)] at all
    refine ⟨?_, ?_, ?_, ?_, all, tracked, boundary, packs.counts.same ?_ ?_⟩
    · rw [reading]
      exact packs.speaksV2
    · rw [reading]
      exact packs.sameMagic
    · rw [reading]
      exact packs.sent
    · rw [reading]
      exact packs.encrypted
    · rw [reading]
    · rw [reading]

theorem encryptedHandshake_ends (paired : Paired theirCipher cipher)
    (isCipher : newCipher own.prvKey own.ellOurs theirs.ellOurs peer.dialled peer.magic = cipher)
    (unforeseen : Unforeseen theirCipher.sendGarbageTerminator theirs.garbage)
    (plain : ∀ encryption ∈ said, encryption.aad = [] ∧ Encryptable encryption)
    (fresh : Fresh peer) (prompt : Prompt peer)
    (stream : peer.ahead ++ unsent = sideOctets theirCipher theirs said) :
    match encryptedHandshake newCipher own peer with
    | (.ok (), ready) => HandshakeDone cipher theirCipher own theirs said unsent peer ready
    | (.error error, reached) =>
        HandshakeWaits cipher theirCipher own theirs peer reached error := by
  have whole := stream
  rw [sideOctets_eq] at whole
  -- the key and the garbage are sent before anything is read
  let opened : Peer := { peer with sent := peer.sent ++ (own.ellOurs ++ own.garbage) }
  have openedPrompt : Prompt opened := ⟨prompt.all, prompt.pending⟩
  have keyEnds := take_ends openedPrompt whole
  rw [theirs.ellSize] at keyEnds
  unfold encryptedHandshake sendall
  rw [Action.update_bind]
  rcases keyRun : take ELL_SIZE opened with ⟨error | ellTheirs, keyed⟩
  · rw [keyRun] at keyEnds
    obtain ⟨isWaiting, short, same⟩ := keyEnds
    rw [Action.bind_of_error _ keyRun]
    have few : peer.ahead.length < ELL_SIZE := short
    have many := handshakeOctets_length theirCipher theirs
    refine ⟨isWaiting, by omega, fun _ => .inr ?_, fun enough => by omega⟩
    rw [same]
    change peer.sent ++ _ = _
    rw [fresh.unsaid, List.nil_append]
  · rw [keyRun] at keyEnds
    obtain ⟨rfl, consumed, same⟩ := keyEnds
    have isKeyed : newCipher own.prvKey own.ellOurs theirs.ellOurs keyed.dialled keyed.magic =
        cipher := by
      rw [same]
      exact isCipher
    have keyedConsumed : Consumed theirs.ellOurs peer keyed :=
      ⟨consumed.ahead_eq, consumed.prompt_eq, consumed.pause_eq⟩
    rw [Action.bind_of_ok _ keyRun, Action.read_bind, isKeyed]
    unfold sendPackets
    rw [Action.update_bind]
    refine Packed.ends ⟨rfl, ?_, ?_, rfl, keyedConsumed.of_same rfl rfl, ?_, ?_, ?_⟩ paired unforeseen
      plain prompt stream
    · change keyed.magic = _
      rw [same]
    · change keyed.sent ++ _ = _
      rw [same]
      change (peer.sent ++ _) ++ _ = _
      rw [fresh.unsaid, List.nil_append]
      rfl
    · change keyed.contentsLen = none
      rw [same]
      exact fresh.notBegun
    · change keyed.calls = []
      rw [same]
      exact fresh.notCalled
    · refine fresh.counts.same ?_ ?_
      · change keyed.messageCount = _
        rw [same]
      · change keyed.lastMessage = _
        rw [same]

/-- `_v2_handshake` of either side, where the one that dialled has a key that is not v1's
header. -/
theorem v2Handshake_ends {wire : Wire} (paired : Paired theirCipher cipher)
    (isCipher : newCipher own.prvKey own.ellOurs theirs.ellOurs peer.dialled peer.magic = cipher)
    (unforeseen : Unforeseen theirCipher.sendGarbageTerminator theirs.garbage)
    (plain : ∀ encryption ∈ said, encryption.aad = [] ∧ Encryptable encryption)
    (four : peer.magic.length = 4)
    (notV1 : peer.dialled = false → ¬ versionHeader wire peer.magic <+: theirs.ellOurs)
    (fresh : Fresh peer) (prompt : Prompt peer)
    (stream : peer.ahead ++ unsent = sideOctets theirCipher theirs said) :
    match v2Handshake wire newCipher own peer with
    | (.ok (), ready) => HandshakeDone cipher theirCipher own theirs said unsent peer ready
    | (.error error, reached) =>
        HandshakeWaits cipher theirCipher own theirs peer reached error := by
  unfold v2Handshake
  rw [Action.read_bind]
  cases dialled : peer.dialled with
  | true =>
      rw [if_pos rfl]
      exact encryptedHandshake_ends paired isCipher unforeseen plain fresh prompt stream
  | false =>
      rw [if_neg (by decide)]
      have whole := stream
      rw [sideOctets_eq] at whole
      have size : (versionHeader wire peer.magic).length ≤ theirs.ellOurs.length := by
        rw [theirs.ellSize, versionHeader, List.length_take, four]
        unfold ELL_SIZE
        omega
      have ends := opensWithV1Version_ends size (notV1 dialled) prompt whole
      have handshakeSize := handshakeOctets_length theirCipher theirs
      rcases run : opensWithV1Version wire peer with ⟨error | speaksV1, opened⟩
      · rw [run] at ends
        obtain ⟨isWaiting, short, same⟩ := ends
        rw [theirs.ellSize] at short
        rw [Action.bind_of_error _ run]
        refine ⟨isWaiting, by omega, fun _ => .inl ⟨?_, dialled⟩, fun enough => by omega⟩
        rw [same]
        exact fresh.unsaid
      · rw [run] at ends
        obtain ⟨rfl, consumed, same⟩ := ends
        rw [Action.bind_of_ok _ run, if_neg (by decide)]
        have openedFresh : Fresh opened := by
          obtain ⟨notBegun, notCalled, unsaid, counts⟩ := fresh
          rw [same]
          exact ⟨notBegun, notCalled, unsaid, counts.same rfl rfl⟩
        have sameAhead : opened.ahead = peer.ahead := consumed.ahead_eq.symm
        have sameDialled : opened.dialled = peer.dialled := by rw [same]
        have sameMagic : opened.magic = peer.magic := by rw [same]
        have ends := encryptedHandshake_ends paired (by rw [sameDialled, sameMagic]; exact isCipher)
          unforeseen plain openedFresh (prompt.consumed consumed) (by rw [sameAhead]; exact stream)
        rcases rest : encryptedHandshake newCipher own opened with ⟨error | ⟨⟩, reached⟩
        · rw [rest] at ends
          obtain ⟨isWaiting, short, opening, sent⟩ := ends
          rw [sameAhead] at short opening sent
          rw [sameDialled] at opening
          exact ⟨isWaiting, short, opening, sent⟩
        · rw [rest] at ends
          obtain ⟨speaksV2, magic, sent, encrypted, all, tracked, boundary, counts⟩ := ends
          exact ⟨speaksV2, magic.trans sameMagic, sent, encrypted, consumed.trans all, tracked,
            boundary, counts⟩

end Handshake

end Peer

end BitcoinNodeTests
