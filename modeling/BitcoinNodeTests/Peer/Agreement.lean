import BitcoinNodeTests.Peer.Handshaken
import BitcoinNodeTests.Peer.Resumed

/-!
# Both sides complete the handshake and hear each other

What a side has been delivered is a front of what the other has sent, so by `Handshaken` a side
completes the handshake once that front holds the other's, and then reads the other's packets
in their order.  Of two sides the one that dialled sends first, and neither waits for what the
other does not send.
-/

set_option autoImplicit false

namespace BitcoinNodeTests

open Foundation

/-! ## After the handshake -/

section Conversing

variable {wire : Wire} {cipher theirCipher : Cipher} {own theirs : Secrets}
  {said spoken : List Encryption} {unsent magic garbage : List Octet}
  {packets read heard rest : List Packet} {returned : List Message}

namespace Peer

/-- One call of `receive` on a connection that neither stalls nor ends: the next message, or a
wait with no packet whole. -/
theorem receive_running {peer : Peer} (deciphers : Deciphers cipher garbage packets)
    (split : packets = read ++ rest)
    (running : Running wire cipher magic garbage returned read rest unsent peer)
    (prompt : Prompt peer) :
    ∃ more later, rest = more ++ later ∧
      match receive wire peer with
      | (.ok message, reached) => more.filterMap (readable wire magic) = [message] ∧
          Running wire cipher magic garbage (returned ++ [message]) (read ++ more) later unsent
            reached ∧
          Prompt reached ∧ reached.sent = peer.sent ∧ reached.encrypted = peer.encrypted
      | (.error error, reached) => more.filterMap (readable wire magic) = [] ∧
          Running wire cipher magic garbage returned (read ++ more) later unsent reached ∧
          error = .waiting ∧ (unsent = [] → later = []) ∧ reached.sent = peer.sent ∧
          reached.encrypted = peer.encrypted := by
  obtain ⟨speaksV2, sameMagic, tracked, counts⟩ := running
  have reads := (receiveV2_packetLoop wire magic).readsOn deciphers
    peer.ahead.length peer read rest le_rfl sameMagic split tracked
  rw [receive_encrypted speaksV2]
  rcases run : receiveV2 wire cipher peer with ⟨error | message, reached⟩
  · rw [run] at reads
    obtain ⟨dropped, later, taken, here, unread, after, noWhole, interrupted, reading⟩ := reads
    obtain ⟨isWaiting, held⟩ := prompt.interrupted interrupted
    refine ⟨dropped, later, here, filterMap_unread unread, ⟨?_, ?_, after, ?_⟩, isWaiting,
      fun allSent => ?_, ?_, ?_⟩
    · rw [reading]
      exact speaksV2
    · rw [reading]
      exact sameMagic
    · exact counts.same (by rw [reading]) (by rw [reading])
    · cases isLater : later with
      | nil => rfl
      | cons packet others =>
          have short := after.short held noWhole isLater
          rw [allSent] at short
          exact absurd short (Nat.not_lt_zero _)
    · rw [reading]
    · rw [reading]
  · rw [run] at reads
    obtain ⟨dropped, packet, later, taken, here, unread, given, after, -, consumed, reading⟩ :=
      reads
    have gives : (dropped ++ [packet]).filterMap (readable wire magic) = [message] := by
      rw [List.filterMap_append, filterMap_unread unread]
      simp [given]
    have countsReached : Counts returned reached :=
      counts.same (by rw [reading]) (by rw [reading])
    have further := prompt.consumed consumed
    refine ⟨dropped ++ [packet], later, by rw [here, List.append_assoc]; rfl, gives,
      ⟨?_, ?_, ⟨after.aad_eq, after.position⟩, countsReached.count message⟩,
      ⟨further.all, further.pending⟩, ?_, ?_⟩
    · simp only [count]
      rw [reading]
      exact speaksV2
    · simp only [count]
      rw [reading]
      exact sameMagic
    · simp only [count]
      rw [reading]
    · simp only [count]
      rw [reading]

end Peer

/-- A side in the calls of its script: it has read `heard` of the other's packets after the
version packet, and encrypted `spoken` after its own. -/
structure Conversing (wire : Wire) (cipher theirCipher : Cipher) (own theirs : Secrets)
    (magic : List Octet) (said : List Encryption) (unsent : List Octet) (heard rest : List Packet)
    (spoken : List Encryption) (talker : Talker) : Prop where
  running : Peer.Running wire cipher magic theirs.garbage talker.returned
    (encryptedPackets theirCipher theirs.encryptions ++ heard) rest unsent talker.peer
  parts : packetsAfter theirCipher theirs.encryptions said = heard ++ rest
  returned : talker.returned = heard.filterMap (readable wire magic)
  sent : talker.peer.sent = sideOctets cipher own spoken
  encrypted : talker.peer.encrypted = own.encryptions ++ spoken
  plain : ∀ encryption ∈ spoken, encryption.aad = [] ∧ Encryptable encryption
  saying : talker.said =
    (packetsAfter cipher own.encryptions spoken).filterMap (readable wire magic)

/-- A message whose contents are read as what they were made of, in a packet of its own. -/
def Sendable (wire : Wire) (command : String) (payload : List Octet) : Prop :=
  wire.messageFromContents (wire.contentsFromMessage command payload) = some (command, payload) ∧
    (wire.contentsFromMessage command payload).length < 256 ^ LENGTH_LEN

theorem packetsAfter_snoc (cipher : Cipher) (history encryptions : List Encryption)
    (last : Encryption) :
    packetsAfter cipher history (encryptions ++ [last]) = packetsAfter cipher history encryptions ++
      [packetOf (cipher.encrypt (history ++ encryptions) last) last] := by
  rw [packetsAfter_append]
  rfl

theorem sideOctets_snoc (cipher : Cipher) (own : Secrets) (spoken : List Encryption)
    (last : Encryption) :
    sideOctets cipher own (spoken ++ [last]) =
      sideOctets cipher own spoken ++ cipher.encrypt (own.encryptions ++ spoken) last := by
  unfold sideOctets
  rw [packetsAfter_snoc, packetsOctets_append, List.append_assoc]
  congr 2
  simp [packetsOctets, packetOf_octets]

theorem Peer.send_encrypted {peer : Peer} (speaksV2 : peer.cipher = some cipher) (command : String)
    (payload : List Octet) (isDecoy : Bool) :
    Peer.send wire command payload isDecoy peer = (.ok (),
      { peer with
        sent := peer.sent ++ cipher.encrypt peer.encrypted
          ⟨wire.contentsFromMessage command payload, [], isDecoy⟩
        encrypted := peer.encrypted ++
          [⟨wire.contentsFromMessage command payload, [], isDecoy⟩] }) := by
  unfold Peer.send
  rw [Action.read_bind]
  simp only [id, speaksV2]
  rw [Action.update_apply, speaksV2]

theorem Conversing.send {talker : Talker}
    (conversing : Conversing wire cipher theirCipher own theirs magic said unsent heard rest spoken
      talker) (prompt : Peer.Prompt talker.peer) {command : String} {payload : List Octet}
    (sendable : Sendable wire command payload) (isDecoy : Bool) :
    ∃ reached, Talker.perform wire (.send command payload isDecoy) talker = (.ok (), reached) ∧
      Conversing wire cipher theirCipher own theirs magic said unsent heard rest
        (spoken ++ [⟨wire.contentsFromMessage command payload, [], isDecoy⟩]) reached ∧
      Peer.Prompt reached.peer := by
  obtain ⟨⟨speaksV2, sameMagic, tracked, counts⟩, parts, returned, sent, encrypted, plain,
    saying⟩ := conversing
  let last : Encryption := ⟨wire.contentsFromMessage command payload, [], isDecoy⟩
  have speaks : readable wire magic
      (packetOf (cipher.encrypt (own.encryptions ++ spoken) last) last) =
        if isDecoy then none else some ⟨magic, command, payload⟩ := by
    unfold readable packetOf
    dsimp only
    rw [sendable.1]
    rfl
  let reached : Talker := { talker with
    peer := { talker.peer with
      sent := talker.peer.sent ++ cipher.encrypt talker.peer.encrypted last
      encrypted := talker.peer.encrypted ++ [last] }
    said := if isDecoy then talker.said else talker.said ++ [⟨magic, command, payload⟩] }
  refine ⟨reached, ?_, ⟨⟨speaksV2, sameMagic, ⟨tracked.aad_eq, tracked.position⟩,
    ⟨counts.counted, counts.latest⟩⟩, parts, returned, ?_, ?_, ?_, ?_⟩,
    ⟨prompt.all, prompt.pending⟩⟩
  · rw [Talker.perform, Talker.onPeer, Action.bind_apply, Action.onPart_apply, Peer.send_encrypted speaksV2]
    dsimp only
    rw [Action.update_apply]
    cases isDecoy with
    | true => rfl
    | false =>
        rw [if_neg (by decide)]
        unfold reached
        rw [if_neg (by decide), ← sameMagic]
  · unfold reached
    dsimp only
    rw [sent, encrypted, sideOctets_snoc]
  · unfold reached
    dsimp only
    rw [encrypted, List.append_assoc]
  · intro encryption member
    rcases List.mem_append.mp member with earlier | isLast
    · exact plain encryption earlier
    · rw [List.mem_singleton.mp isLast]
      exact ⟨rfl, sendable.2⟩
  · have heard : [packetOf (cipher.encrypt (own.encryptions ++ spoken) last) last].filterMap
        (readable wire magic) = if isDecoy then [] else [⟨magic, command, payload⟩] := by
      rw [List.filterMap_cons, speaks]
      cases isDecoy <;> rfl
    rw [packetsAfter_snoc, List.filterMap_append, ← saying, heard]
    unfold reached
    cases isDecoy with
    | true => simp
    | false => simp

/-- A side blocked in `receive` that all the other sent was delivered to has heard it all. -/
def Blocked (unsent : List Octet) (rest : List Packet) (result : Except Raised Unit) : Prop :=
  result = .error .waiting ∧ (unsent = [] → rest = [])

theorem Conversing.receive {talker : Talker} (deciphers : Deciphers cipher theirs.garbage
      (encryptedPackets theirCipher theirs.encryptions ++
        packetsAfter theirCipher theirs.encryptions said))
    (conversing : Conversing wire cipher theirCipher own theirs magic said unsent heard rest spoken
      talker) (prompt : Peer.Prompt talker.peer) :
    ∃ more later result reached, Talker.perform wire .receive talker = (result, reached) ∧
      Conversing wire cipher theirCipher own theirs magic said unsent (heard ++ more) later spoken
        reached ∧
      (result = .ok () ∧ Peer.Prompt reached.peer ∨ Blocked unsent later result) := by
  obtain ⟨running, parts, returned, sent, encrypted, plain, saying⟩ := conversing
  have split : encryptedPackets theirCipher theirs.encryptions ++
      packetsAfter theirCipher theirs.encryptions said =
        (encryptedPackets theirCipher theirs.encryptions ++ heard) ++ rest := by
    rw [parts, List.append_assoc]
  obtain ⟨more, later, here, ends⟩ := Peer.receive_running deciphers split running prompt
  rw [Talker.perform, Talker.onPeer, Action.bind_apply, Action.onPart_apply]
  rcases run : Peer.receive wire talker.peer with ⟨error | message, peer⟩
  · rw [run] at ends
    obtain ⟨gives, after, isWaiting, allHeard, sameSent, sameEncrypted⟩ := ends
    refine ⟨more, later, _, _, rfl, ⟨?_, ?_, ?_, ?_, ?_, plain, saying⟩,
      .inr ⟨congrArg Except.error isWaiting, allHeard⟩⟩
    · rw [← List.append_assoc]
      exact after
    · rw [parts, here, List.append_assoc]
    · rw [List.filterMap_append, gives, List.append_nil]
      exact returned
    · exact sameSent.trans sent
    · exact sameEncrypted.trans encrypted
  · rw [run] at ends
    obtain ⟨gives, after, further, sameSent, sameEncrypted⟩ := ends
    refine ⟨more, later, _, _, rfl, ⟨?_, ?_, ?_, ?_, ?_, plain, saying⟩, .inl ⟨rfl, further⟩⟩
    · rw [← List.append_assoc]
      exact after
    · rw [parts, here, List.append_assoc]
    · change talker.returned ++ [message] = _
      rw [List.filterMap_append, ← returned, gives]
    · exact sameSent.trans sent
    · exact sameEncrypted.trans encrypted

theorem Conversing.performAll (deciphers : Deciphers cipher theirs.garbage
      (encryptedPackets theirCipher theirs.encryptions ++
        packetsAfter theirCipher theirs.encryptions said))
    {ops : List Op} (sendable : ∀ command payload isDecoy, .send command payload isDecoy ∈ ops →
      Sendable wire command payload)
    {talker : Talker} (conversing : Conversing wire cipher theirCipher own theirs magic said unsent
      heard rest spoken talker) (prompt : Peer.Prompt talker.peer) :
    ∃ more later uttered result reached, Talker.performAll wire ops talker = (result, reached) ∧
      Conversing wire cipher theirCipher own theirs magic said unsent (heard ++ more) later
        (spoken ++ uttered) reached ∧
      (result = .ok () ∨ Blocked unsent later result) := by
  induction ops generalizing heard rest spoken talker with
  | nil =>
      refine ⟨[], rest, [], _, _, rfl, ?_, .inl rfl⟩
      rw [List.append_nil, List.append_nil]
      exact conversing
  | cons op ops ih =>
      have later : ∀ command payload isDecoy, .send command payload isDecoy ∈ ops →
          Sendable wire command payload := fun command payload isDecoy member =>
        sendable command payload isDecoy (List.mem_cons_of_mem _ member)
      rw [Talker.performAll]
      cases op with
      | send command payload isDecoy =>
          obtain ⟨middle, performed, between, promptMiddle⟩ := conversing.send prompt
            (sendable command payload isDecoy List.mem_cons_self) isDecoy
          obtain ⟨more, last, uttered, result, reached, ran, after, ends⟩ :=
            ih later between promptMiddle
          rw [Action.bind_of_ok _ performed]
          refine ⟨more, last, [⟨wire.contentsFromMessage command payload, [], isDecoy⟩] ++ uttered,
            result, reached, ran, ?_, ends⟩
          rw [List.append_assoc] at after
          exact after
      | receive =>
          obtain ⟨some, middleRest, result, middle, performed, between, ends⟩ :=
            conversing.receive deciphers prompt
          rcases ends with ⟨rfl, promptMiddle⟩ | blocked
          · obtain ⟨more, last, uttered, result, reached, ran, after, ends⟩ :=
              ih later between promptMiddle
            rw [Action.bind_of_ok _ performed]
            refine ⟨some ++ more, last, uttered, result, reached, ran, ?_, ends⟩
            rw [List.append_assoc] at after
            exact after
          · have waits := performed
            rw [blocked.1] at waits
            rw [Action.bind_of_error _ waits]
            refine ⟨some, middleRest, [], _, _, rfl, ?_, .inr ⟨rfl, blocked.2⟩⟩
            rw [List.append_nil]
            exact between

end Conversing

theorem sideOctets_nil (cipher : Cipher) (own : Secrets) :
    sideOctets cipher own [] = handshakeOctets cipher own := List.append_nil _

/-! ## The two sides -/

namespace Dialogue

/-- What the two sides rely on: a magic of four octets, paired ciphers, terminators that occur
at their place and not before, a key of the side that dialled that is not v1's header, and
messages that can be sent. -/
structure Proper (dialogue : Dialogue) : Prop where
  four : dialogue.magic.length = 4
  paired : ∀ side, Paired (dialogue.cipher !side) (dialogue.cipher side)
  unforeseen : ∀ side, Unforeseen (dialogue.cipher side).sendGarbageTerminator
    (dialogue.secrets side).garbage
  notV1 : ¬ Peer.versionHeader dialogue.wire dialogue.magic <+: (dialogue.secrets true).ellOurs
  sendable : ∀ side command payload isDecoy, .send command payload isDecoy ∈ dialogue.script side →
    Sendable dialogue.wire command payload

def octetsTo (state : Delivered) (side : Bool) : List Octet := (state side).flatMap Chunk.octets

def handshakeOf (dialogue : Dialogue) (side : Bool) : List Octet :=
  handshakeOctets (dialogue.cipher side) (dialogue.secrets side)

def sideOf (dialogue : Dialogue) (side : Bool) (said : List Encryption) : List Octet :=
  sideOctets (dialogue.cipher side) (dialogue.secrets side) said

def packetsOf (dialogue : Dialogue) (side : Bool) (said : List Encryption) : List Packet :=
  packetsAfter (dialogue.cipher side) (dialogue.secrets side).encryptions said

def Plain (said : List Encryption) : Prop :=
  ∀ encryption ∈ said, encryption.aad = [] ∧ Encryptable encryption

section Sides

variable {dialogue : Dialogue} {side : Bool} {chunks : List Chunk} {said : List Encryption}
  {unsent : List Octet}

theorem octets_arrivals (chunks : List Chunk) :
    Arrival.octets (chunks.map Chunk.arrival) = chunks.flatMap Chunk.octets ∧
      Arrival.prompt (chunks.map Chunk.arrival) = chunks.flatMap Chunk.octets ∧
      Arrival.stop (chunks.map Chunk.arrival) = .pending := by
  induction chunks with
  | nil => exact ⟨rfl, rfl, rfl⟩
  | cons chunk rest ih =>
      obtain ⟨octets, prompt, stop⟩ := ih
      simp only [List.map_cons, List.flatMap_cons, Chunk.arrival, Arrival.octets, Arrival.prompt,
        Arrival.stop]
      exact ⟨by rw [octets]; rfl, by rw [prompt]; rfl, stop⟩

theorem adopted_ahead (side : Bool) (chunks : List Chunk) :
    (dialogue.adopted side chunks).ahead = chunks.flatMap Chunk.octets := (octets_arrivals chunks).1

theorem adopted_prompt (side : Bool) (chunks : List Chunk) :
    Peer.Prompt (dialogue.adopted side chunks) := by
  obtain ⟨octets, prompt, stop⟩ := octets_arrivals chunks
  refine ⟨?_, stop⟩
  exact prompt.trans octets.symm

theorem adopted_fresh (side : Bool) (chunks : List Chunk) :
    Peer.Fresh (dialogue.adopted side chunks) :=
  ⟨rfl, rfl, rfl, ⟨fun _ => rfl, fun _ => rfl⟩⟩

theorem handshake_ends (proper : dialogue.Proper) (plain : Plain said)
    (stream : chunks.flatMap Chunk.octets ++ unsent = dialogue.sideOf (!side) said) :
    match dialogue.handshake side chunks with
    | (.ok (), ready) => Peer.HandshakeDone (dialogue.cipher side) (dialogue.cipher !side)
        (dialogue.secrets side) (dialogue.secrets !side) said unsent
        (dialogue.adopted side chunks) ready
    | (.error error, reached) => Peer.HandshakeWaits (dialogue.cipher side) (dialogue.cipher !side)
        (dialogue.secrets side) (dialogue.secrets !side) (dialogue.adopted side chunks) reached
        error := by
  refine Peer.v2Handshake_ends (proper.paired side) rfl (proper.unforeseen _) plain proper.four
    ?_ (adopted_fresh side chunks) (adopted_prompt side chunks) ?_
  · intro accepted
    have isFalse : side = false := accepted
    rw [isFalse]
    exact proper.notV1
  · rw [adopted_ahead]
    exact stream

/-- Where a side stands: in its handshake, or in its script. -/
inductive Stands (dialogue : Dialogue) (side : Bool) (chunks : List Chunk) (said : List Encryption)
    (unsent : List Octet) : Prop
  | handshake (error : Raised) (reached : Peer)
      (run : dialogue.handshake side chunks = (.error error, reached))
      (waits : Peer.HandshakeWaits (dialogue.cipher side) (dialogue.cipher !side)
        (dialogue.secrets side) (dialogue.secrets !side) (dialogue.adopted side chunks) reached
        error)
      (ran : dialogue.ran side chunks = (.error error, ⟨reached, [], []⟩))
  | script (ready : Peer) (heard rest : List Packet) (spoken : List Encryption)
      (result : Except Raised Unit) (talker : Talker)
      (run : dialogue.handshake side chunks = (.ok (), ready))
      (done : Peer.HandshakeDone (dialogue.cipher side) (dialogue.cipher !side)
        (dialogue.secrets side) (dialogue.secrets !side) said unsent
        (dialogue.adopted side chunks) ready)
      (ran : dialogue.ran side chunks = (result, talker))
      (conversing : Conversing dialogue.wire (dialogue.cipher side) (dialogue.cipher !side)
        (dialogue.secrets side) (dialogue.secrets !side) dialogue.magic said unsent heard rest
        spoken talker)
      (ends : result = .ok () ∨ Blocked unsent rest result)

theorem stands (proper : dialogue.Proper) (plain : Plain said)
    (stream : chunks.flatMap Chunk.octets ++ unsent = dialogue.sideOf (!side) said) :
    Stands dialogue side chunks said unsent := by
  have ends := handshake_ends proper plain stream
  have ranIs : dialogue.ran side chunks = match dialogue.handshake side chunks with
      | (.error error, reached) => (.error error, ⟨reached, [], []⟩)
      | (.ok (), ready) =>
          Talker.performAll dialogue.wire (dialogue.script side) ⟨ready, [], []⟩ := by
    unfold ran program handshake Talker.onPeer
    rw [Action.bind_apply, Action.onPart_apply]
    rcases Peer.v2Handshake dialogue.wire dialogue.newCipher (dialogue.secrets side)
      (dialogue.adopted side chunks) with ⟨error | ⟨⟩, reached⟩
    · rfl
    · rfl
  rcases run : dialogue.handshake side chunks with ⟨error | ⟨⟩, reached⟩
  · rw [run] at ends ranIs
    exact .handshake error reached run ends ranIs
  · rw [run] at ends ranIs
    have deciphers := (proper.paired side).deciphers (dialogue.secrets !side).garbage
      ((dialogue.secrets !side).encryptions ++ said)
      (encryptions_garbageFirst _ fun encryption member => (plain encryption member).1)
      (fun encryption member => (List.mem_append.mp member).elim
        (encryptionsOf_encryptable (dialogue.secrets !side).decoyBound encryption)
        fun inSaid => (plain encryption inSaid).2)
    rw [Peer.encryptedPackets_append] at deciphers
    have start : Conversing dialogue.wire (dialogue.cipher side) (dialogue.cipher !side)
        (dialogue.secrets side) (dialogue.secrets !side) dialogue.magic said unsent []
        (dialogue.packetsOf (!side) said) [] ⟨reached, [], []⟩ := by
      refine ⟨⟨ends.speaksV2, ends.sameMagic, ?_, ends.counts⟩, rfl, rfl, ?_, ?_, by simp, rfl⟩
      · rw [List.append_nil]
        exact ends.tracked
      · rw [sideOctets_nil]
        exact ends.sent
      · rw [List.append_nil]
        exact ends.encrypted
    obtain ⟨more, later, uttered, result, talker, performed, conversing, finally_⟩ :=
      start.performAll deciphers (proper.sendable side)
        ((adopted_prompt side chunks).consumed ends.consumed)
    exact .script reached _ _ _ result talker run ends (ranIs.trans performed) conversing finally_

/-- What a side has sent is a front of all it may send, and what it has said is in it. -/
structure Sends (dialogue : Dialogue) (side : Bool) (chunks : List Chunk)
    (spoken : List Encryption) : Prop where
  plain : Plain spoken
  front : (dialogue.ran side chunks).2.peer.sent <+: dialogue.sideOf side spoken
  whole : (dialogue.handshakeOf side).length ≤ (dialogue.ran side chunks).2.peer.sent.length →
    (dialogue.ran side chunks).2.peer.sent = dialogue.sideOf side spoken
  saying : (dialogue.ran side chunks).2.said =
    (dialogue.packetsOf side spoken).filterMap (readable dialogue.wire dialogue.magic)
  opening : side = true →
    ELL_SIZE ≤ (dialogue.ran side chunks).2.peer.sent.length
  answers : ELL_SIZE ≤ (chunks.flatMap Chunk.octets).length →
    (dialogue.handshakeOf side).length ≤ (dialogue.ran side chunks).2.peer.sent.length

theorem key_le_handshakeOf (dialogue : Dialogue) (side : Bool) :
    ELL_SIZE ≤ (dialogue.handshakeOf side).length := by
  rw [← (dialogue.secrets side).ellSize]
  simp only [handshakeOf, handshakeOctets, List.length_append]
  omega

theorem Stands.sends (stands : Stands dialogue side chunks said unsent) :
    ∃ spoken, Sends dialogue side chunks spoken := by
  have key := key_le_handshakeOf dialogue side
  cases stands with
  | handshake error reached run waits ran =>
      have front : reached.sent <+: dialogue.handshakeOf side := by
        rcases Nat.lt_or_ge (dialogue.adopted side chunks).ahead.length ELL_SIZE with few | enough
        · rcases waits.opened few with ⟨nothing, -⟩ | opening
          · rw [nothing]
            exact List.nil_prefix
          · rw [opening]
            exact List.prefix_append _ _
        · rw [waits.sent enough]
          exact List.prefix_refl _
      refine ⟨[], by simp [Plain], ?_, ?_, by rw [ran]; rfl, ?_, ?_⟩
      · rw [ran, sideOf, sideOctets_nil]
        exact front
      · rw [ran, sideOf, sideOctets_nil]
        exact fun long => front.eq_of_length (Nat.le_antisymm front.length_le long)
      · intro isDialled
        rw [ran]
        rcases Nat.lt_or_ge (dialogue.adopted side chunks).ahead.length ELL_SIZE with few | enough
        · rcases waits.opened few with ⟨-, accepted⟩ | opening
          · cases accepted.symm.trans isDialled
          · rw [opening, List.length_append, (dialogue.secrets side).ellSize]
            exact Nat.le_add_right _ _
        · rw [waits.sent enough]
          exact key
      · intro enough
        rw [ran]
        rw [← adopted_ahead side] at enough
        rw [waits.sent enough]
        exact le_rfl
  | script ready heard rest spoken result talker run done ran conversing ends =>
      have enough : (dialogue.handshakeOf side).length ≤ talker.peer.sent.length := by
        rw [conversing.sent, sideOctets, List.length_append]
        exact Nat.le_add_right _ _
      refine ⟨spoken, conversing.plain, ?_, ?_, ?_, ?_, ?_⟩
      all_goals rw [ran]
      · rw [conversing.sent]
        exact List.prefix_refl _
      · exact fun _ => conversing.sent
      · exact conversing.saying
      · exact fun _ => key.trans enough
      · exact fun _ => enough

theorem stands_of_front (proper : dialogue.Proper) (plain : Plain said)
    (front : chunks.flatMap Chunk.octets <+: dialogue.sideOf (!side) said) :
    ∃ unsent, chunks.flatMap Chunk.octets ++ unsent = dialogue.sideOf (!side) said ∧
      Stands dialogue side chunks said unsent := by
  obtain ⟨unsent, stream⟩ := front
  exact ⟨unsent, stream, stands proper plain stream⟩

/-- What each side has been delivered is a front of what the other may send. -/
theorem delivered_possible (proper : dialogue.Proper) {state : Delivered}
    (reachable : dialogue.Reachable state) (side : Bool) :
    ∃ spoken, Plain spoken ∧ octetsTo state side <+: dialogue.sideOf (!side) spoken := by
  induction reachable generalizing side with
  | start => exact ⟨[], by simp [Plain], List.nil_prefix⟩
  | @deliver state moved chunk before next ih =>
      by_cases same : side = moved
      · subst same
        obtain ⟨said, plain, front⟩ := ih !side
        rw [Bool.not_not] at front
        have otherFront : (state !side).flatMap Chunk.octets <+: dialogue.sideOf (!!side) said := by
          rw [Bool.not_not]
          exact front
        obtain ⟨unsent, -, here⟩ := stands_of_front proper plain otherFront
        obtain ⟨spoken, sends⟩ := here.sends
        refine ⟨spoken, sends.plain, ?_⟩
        have now : octetsTo (deliver state side chunk) side =
            (state side).flatMap Chunk.octets ++ chunk.octets := by
          simp [octetsTo, Dialogue.deliver]
        rw [now]
        exact next.trans sends.front
      · obtain ⟨spoken, plain, front⟩ := ih side
        refine ⟨spoken, plain, ?_⟩
        rw [octetsTo, Dialogue.deliver, Function.update_of_ne same]
        exact front

/-- What each side has been delivered is a front of what the other has sent. -/
theorem delivered_front {state : Delivered} (reachable : dialogue.Reachable state) (side : Bool) :
    octetsTo state side <+: dialogue.sent state !side := by
  induction reachable generalizing side with
  | start => exact List.nil_prefix
  | @deliver state moved chunk before next ih =>
      by_cases same : side = moved
      · subst same
        have other : (!side) ≠ side := by cases side <;> decide
        rw [octetsTo, sent, Dialogue.deliver, Function.update_self, Function.update_of_ne other,
          List.flatMap_append]
        simpa [Deliverable, sent] using next
      · have other : moved = !side := by
          cases side <;> cases moved <;> simp_all
        subst other
        rw [octetsTo, sent, Dialogue.deliver, Function.update_of_ne same, Function.update_self]
        exact (ih side).trans (dialogue.ran_further (!side) (state !side) [chunk]).sent

end Sides

/-! ## Agreement -/

/-- What holds of a side, whatever has been delivered: it raised nothing; its handshake returns
exactly once the other's is delivered; the handshake that returned encrypted its packets and
decrypted the other's, the sender's garbage being the associated data of the first alone, and
consumed the other's handshake and nothing after it; what it encrypts and decrypts later has no
associated data; and what its calls of `receive` returned is, in order, what the other side
said, all of it once all that was sent is delivered and a call of `receive` waits. -/
structure Agrees (dialogue : Dialogue) (state : Delivered) (side : Bool) : Prop where
  raisesNothing : (dialogue.ran side (state side)).1 = .ok () ∨
    (dialogue.ran side (state side)).1 = .error .waiting
  completes : dialogue.Completed state side ↔
    (dialogue.handshakeOf !side).length ≤ (octetsTo state side).length
  handshake : ∀ ready, dialogue.handshake side (state side) = (.ok (), ready) →
    GarbageFirst (dialogue.secrets side).garbage ready.encrypted ∧
      ready.encrypted = (dialogue.secrets side).encryptions ∧
      ready.calls = callsFor (dialogue.secrets !side).garbage
        (encryptedPackets (dialogue.cipher !side) (dialogue.secrets !side).encryptions) ∧
      octetsTo state side = dialogue.handshakeOf (!side) ++ ready.ahead
  encrypts : dialogue.Completed state side →
    GarbageFirst (dialogue.secrets side).garbage (dialogue.ran side (state side)).2.peer.encrypted ∧
      (dialogue.secrets side).encryptions <+: (dialogue.ran side (state side)).2.peer.encrypted
  decrypts : dialogue.Completed state side → ∃ heard rest unsent,
    Peer.Tracked (dialogue.secrets !side).garbage
      (encryptedPackets (dialogue.cipher !side) (dialogue.secrets !side).encryptions ++ heard) rest
      unsent (dialogue.ran side (state side)).2.peer
  hears : (dialogue.ran side (state side)).2.returned <+:
    (dialogue.ran (!side) (state !side)).2.said
  hearsAll : (dialogue.ran side (state side)).1 = .error .waiting →
    dialogue.Completed state side → octetsTo state side = dialogue.sent state (!side) →
      (dialogue.ran side (state side)).2.returned = (dialogue.ran (!side) (state !side)).2.said

def missing (dialogue : Dialogue) (state : Delivered) : Nat :=
  ((dialogue.handshakeOf false).length - (octetsTo state true).length) +
    ((dialogue.handshakeOf true).length - (octetsTo state false).length)

/-- Until both handshakes have returned, some octets can be delivered to a side whose handshake
has not, and any that are leave fewer missing. -/
def NoDeadlock (dialogue : Dialogue) (state : Delivered) : Prop :=
  (∀ side, dialogue.Completed state side) ∨
    (∃ side chunk, ¬ dialogue.Completed state side ∧ dialogue.Deliverable state side chunk) ∧
      ∀ side chunk, ¬ dialogue.Completed state side → dialogue.Deliverable state side chunk →
        dialogue.missing (deliver state side chunk) < dialogue.missing state

section Agreement

variable {dialogue : Dialogue} {state : Delivered}

theorem completed_iff (proper : dialogue.Proper) (reachable : dialogue.Reachable state)
    (side : Bool) : dialogue.Completed state side ↔
      (dialogue.handshakeOf !side).length ≤ (octetsTo state side).length := by
  obtain ⟨said, plain, front⟩ := delivered_possible proper reachable side
  obtain ⟨unsent, -, here⟩ := stands_of_front proper plain front
  unfold Completed octetsTo
  rw [← @adopted_ahead dialogue side]
  cases here with
  | handshake error reached run waits ran =>
      refine ⟨fun ⟨ready, done⟩ => ?_, fun enough => absurd waits.short (Nat.not_lt.mpr enough)⟩
      rw [run] at done
      cases done
  | script ready heard rest spoken result talker run done ran conversing ends =>
      refine ⟨fun _ => ?_, fun _ => ⟨ready, run⟩⟩
      rw [done.consumed.ahead_eq, List.length_append]
      exact Nat.le_add_right _ _

theorem stands_in_sent (proper : dialogue.Proper) (reachable : dialogue.Reachable state)
    (side : Bool) :
    ∃ spoken unsent, Sends dialogue (!side) (state !side) spoken ∧
      octetsTo state side ++ unsent = dialogue.sideOf (!side) spoken ∧
      Stands dialogue side (state side) spoken unsent := by
  obtain ⟨said, plain, front⟩ := delivered_possible proper reachable !side
  obtain ⟨missing, -, there⟩ := stands_of_front proper plain front
  obtain ⟨spoken, sends⟩ := there.sends
  obtain ⟨unsent, stream, here⟩ := stands_of_front proper sends.plain
    ((delivered_front reachable side).trans sends.front)
  exact ⟨spoken, unsent, sends, stream, here⟩

theorem deliverable_of_lt (reachable : dialogue.Reachable state) {side : Bool}
    (fewer : (octetsTo state side).length < (dialogue.sent state !side).length) :
    ∃ chunk, dialogue.Deliverable state side chunk := by
  obtain ⟨rest, whole⟩ := delivered_front reachable side
  cases rest with
  | nil =>
      rw [← whole, List.append_nil] at fewer
      exact absurd fewer (Nat.lt_irrefl _)
  | cons first rest => exact ⟨⟨first, rest⟩, [], by rw [List.append_nil]; exact whole⟩

/-- Octets delivered to a side whose handshake has not returned are of the other's handshake. -/
theorem missing_deliver (proper : dialogue.Proper) (reachable : dialogue.Reachable state)
    {side : Bool} (chunk : Chunk) (waiting : ¬ dialogue.Completed state side) :
    dialogue.missing (deliver state side chunk) < dialogue.missing state := by
  have short := Nat.not_le.mp (mt (completed_iff proper reachable side).mpr waiting)
  unfold missing octetsTo deliver at *
  cases side <;> simp [Chunk.octets] at short ⊢ <;> omega

theorem progress (proper : dialogue.Proper) (reachable : dialogue.Reachable state)
    (incomplete : ¬ ∀ side, dialogue.Completed state side) :
    ∃ side chunk, ¬ dialogue.Completed state side ∧ dialogue.Deliverable state side chunk := by
  by_contra nothing
  obtain ⟨side, isIncomplete⟩ := not_forall.mp incomplete
  -- a side that waits has been delivered all the other sent, and the other has not its key
  have waits (side : Bool) (waiting : ¬ dialogue.Completed state side) :
      (octetsTo state side).length = (dialogue.sent state !side).length ∧
        (octetsTo state !side).length < ELL_SIZE := by
    have all : (octetsTo state side).length = (dialogue.sent state !side).length := by
      refine Nat.le_antisymm (delivered_front reachable side).length_le (Nat.not_lt.mp ?_)
      intro fewer
      obtain ⟨chunk, deliverable⟩ := deliverable_of_lt reachable fewer
      exact nothing ⟨side, chunk, waiting, deliverable⟩
    have short := Nat.not_le.mp (mt (completed_iff proper reachable side).mpr waiting)
    obtain ⟨spoken, unsent, sends, -, -⟩ := stands_in_sent proper reachable side
    refine ⟨all, Nat.not_le.mp fun enough => ?_⟩
    have answered := sends.answers enough
    unfold sent at all
    omega
  have otherIncomplete : ¬ dialogue.Completed state !side := by
    intro completed
    have enough := (completed_iff proper reachable !side).mp completed
    have few := (waits side isIncomplete).2
    have key := key_le_handshakeOf dialogue !!side
    omega
  have both (one : Bool) : ¬ dialogue.Completed state one := by
    cases one <;> cases side
    · exact isIncomplete
    · exact otherIncomplete
    · exact otherIncomplete
    · exact isIncomplete
  -- the side that dialled has sent its key
  obtain ⟨spoken, unsent, sends, -, -⟩ := stands_in_sent proper reachable false
  have opened := sends.opening rfl
  have all := (waits false (both false)).1
  have few := (waits true (both true)).2
  unfold sent at all
  simp only [Bool.not_false, Bool.not_true] at all few opened
  omega

theorem agrees (proper : dialogue.Proper) (reachable : dialogue.Reachable state) (side : Bool) :
    dialogue.Agrees state side := by
  have completes := completed_iff proper reachable side
  obtain ⟨spoken, unsent, sends, stream, here⟩ := stands_in_sent proper reachable side
  cases here with
  | handshake error reached run waits ran =>
      have notDone (ready : Peer) : dialogue.handshake side (state side) ≠ (.ok (), ready) := by
        rw [run]
        exact fun done => nomatch done
      have incomplete : ¬ dialogue.Completed state side := fun ⟨ready, done⟩ => notDone ready done
      refine ⟨?_, completes, fun ready done => absurd done (notDone ready),
        fun done => absurd done incomplete, fun done => absurd done incomplete, ?_,
        fun _ done => absurd done incomplete⟩
      · rw [ran, waits.isWaiting]
        exact .inr rfl
      · rw [ran]
        exact List.nil_prefix
  | script ready heard rest uttered result talker run done ran conversing ends =>
      have first := encryptions_garbageFirst (dialogue.secrets side)
        (fun encryption member => (conversing.plain encryption member).1)
      refine ⟨?_, completes, ?_, ?_, ?_, ?_, ?_⟩
      · rw [ran]
        exact ends.imp id And.left
      · intro other isDone
        rw [run] at isDone
        cases isDone
        refine ⟨?_, done.encrypted, (done.tracked.boundary done.boundary).1, ?_⟩
        · have alone := @encryptions_garbageFirst (dialogue.secrets side) []
            (fun encryption member => by cases member)
          rw [List.append_nil] at alone
          rw [done.encrypted]
          exact alone
        · have consumed := done.consumed.ahead_eq
          rw [adopted_ahead] at consumed
          exact consumed
      · intro _
        rw [ran, conversing.encrypted]
        exact ⟨first, List.prefix_append _ _⟩
      · intro _
        rw [ran]
        exact ⟨heard, rest, unsent, conversing.running.tracked⟩
      · rw [ran, sends.saying, conversing.returned, packetsOf, conversing.parts,
          List.filterMap_append]
        exact List.prefix_append _ _
      · intro waits _ all
        rw [ran] at waits ⊢
        rw [sends.saying, conversing.returned, packetsOf, conversing.parts]
        have nothing : unsent = [] := by
          have long := done.consumed.ahead_eq
          rw [adopted_ahead] at long
          have whole := sends.whole (by
            change _ ≤ (dialogue.sent state !side).length
            rw [← all, octetsTo, long, List.length_append]
            exact Nat.le_add_right _ _)
          refine List.append_right_eq_self.mp (stream.trans ?_)
          rw [← whole, all]
          rfl
        rcases ends with isOk | blocked
        · rw [isOk] at waits
          cases waits
        · rw [blocked.2 nothing, List.append_nil]

/-- Two peers that both run `_v2_handshake` complete it and hear each other, however the octets
are cut and interleaved. -/
theorem handshakes_agree (proper : dialogue.Proper) (reachable : dialogue.Reachable state) :
    (∀ side, dialogue.Agrees state side) ∧ dialogue.NoDeadlock state := by
  refine ⟨agrees proper reachable, or_iff_not_imp_left.mpr fun incomplete => ?_⟩
  exact ⟨progress proper reachable incomplete,
    fun _ chunk waiting _ => missing_deliver proper reachable chunk waiting⟩

end Agreement

/-! ## A `ping` answered -/

def pingSecrets (side : Bool) : Secrets where
  prvKey := 1
  ellOurs := List.replicate ELL_SIZE (if side then 3 else 4)
  garbage := if side then [0x67, 0x61] else []
  decoys := if side then [1] else []
  ellSize := List.length_replicate
  garbageBound := by cases side <;> decide
  decoysBound := by cases side <;> decide
  decoyBound := by cases side <;> decide

/-- The side that dialled has garbage and a decoy, and sends a `ping`; the other answers. -/
def pingDialogue : Dialogue where
  wire := Peer.fewWire
  newCipher _ _ _ initiating _ :=
    if initiating then plainCipher (List.replicate 16 1) (List.replicate 16 2)
    else plainCipher (List.replicate 16 2) (List.replicate 16 1)
  magic := Peer.regtestMagic
  secrets := pingSecrets
  script side :=
    if side then [.send "ping" [1, 2, 3, 4, 5, 6, 7, 8] false, .receive]
    else [.receive, .send "pong" [1, 2, 3, 4, 5, 6, 7, 8] false]

theorem pingDialogue_proper : pingDialogue.Proper where
  four := rfl
  paired side := by
    cases side with
    | true => exact plainCipher_paired _ _ _ _ rfl
    | false => exact plainCipher_paired _ _ _ _ rfl
  unforeseen side before after same := by
    have sizes := congrArg List.length same
    simp only [List.length_append] at sizes
    refine List.eq_nil_of_length_eq_zero ?_
    cases side with
    | false =>
        have bare : (pingDialogue.secrets false).garbage.length = 0 := rfl
        omega
    | true =>
        have two : (pingDialogue.secrets true).garbage.length = 2 := rfl
        match before, same with
        | [], same => cases (List.cons.inj same).1
        | [_], same => cases (List.cons.inj (List.cons.inj same).2).1
        | _ :: _ :: _, _ =>
            simp only [List.length_cons] at sizes
            omega
  notV1 := by decide +kernel
  sendable side command payload isDecoy member := by
    have isPing : (command = "ping" ∨ command = "pong") ∧ payload = [1, 2, 3, 4, 5, 6, 7, 8] := by
      cases side with
      | true =>
          rcases List.mem_pair.mp member with same | same
          · cases same
            exact ⟨.inl rfl, rfl⟩
          · cases same
      | false =>
          rcases List.mem_pair.mp member with same | same
          · cases same
          · cases same
            exact ⟨.inr rfl, rfl⟩
    obtain ⟨rfl | rfl, rfl⟩ := isPing
    · exact ⟨rfl, by decide⟩
    · exact ⟨rfl, by decide⟩

def pingDelivered : Delivered := fun side =>
  if side then [] else [⟨3, List.replicate 9 3⟩, ⟨3, List.replicate 53 3 ++ [0x67, 0x61]⟩]

theorem pingDelivered_reachable : pingDialogue.Reachable pingDelivered := by
  let key : Chunk := ⟨3, List.replicate 9 3⟩
  let others : Chunk := ⟨3, List.replicate 53 3 ++ [0x67, 0x61]⟩
  have first : pingDialogue.Deliverable (fun _ => []) false key := by
    unfold Deliverable
    decide +kernel
  have second : pingDialogue.Deliverable (deliver (fun _ => []) false key) false others := by
    unfold Deliverable
    decide +kernel
  have same : deliver (deliver (fun _ => []) false key) false others = pingDelivered := by
    funext side
    cases side <;> rfl
  exact same ▸ Reachable.deliver (Reachable.deliver .start first) second

theorem handshakes_agree_ping :
    (∀ side, pingDialogue.Agrees pingDelivered side) ∧ pingDialogue.NoDeadlock pingDelivered :=
  handshakes_agree pingDialogue_proper pingDelivered_reachable

end Dialogue

end BitcoinNodeTests
