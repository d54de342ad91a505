import BitcoinNodeTests.Peer.Delivered
import BitcoinNodeTests.Peer.Handshaken
import BitcoinNodeTests.Peer.PlainWire

/-!
# The transport an accepted connection speaks

`_opens_with_v1_version` compares what has arrived with the front of a v1 `version` message
after every chunk, and takes none of it.  What the two readers after it find is the stream from
its first octet.
-/

set_option autoImplicit false

namespace BitcoinNodeTests

open Foundation

namespace Peer

def v1Header (magic : List Octet) : List Octet := magic ++ commandOctets "version"

def Framed (wire : Wire) (magic : List Octet) : Prop :=
  v1Header magic <+: wire.serialize ⟨magic, "version", []⟩

theorem versionHeader_framed {wire : Wire} {magic : List Octet} (framed : Framed wire magic) :
    versionHeader wire magic = v1Header magic := by
  have size : (v1Header magic).length = magic.length + 12 := by
    rw [v1Header, List.length_append]
    rfl
  rw [versionHeader, ← size]
  exact (List.prefix_iff_eq_take.mp framed).symm

/-- What `_opens_with_v1_version` ends with, by the octets that arrive before the connection
pauses.  It waits for more only while they may still become the header. -/
def VersionEnds (header : List Octet) (peer : Peer) : Except Raised Bool × Peer → Prop
  | (.ok true, reached) => header <+: peer.promptAhead ∧ Consumed [] peer reached
  | (.ok false, reached) =>
      ¬ peer.promptAhead.take header.length <+: header ∧ Consumed [] peer reached
  | (.error error, reached) =>
      peer.promptAhead <+: header ∧ peer.promptAhead ≠ header ∧ Interrupted [] peer reached error

theorem v1VersionReader_eq (header held : List Octet) :
    v1VersionReader header held =
      if held.take header.length <+: header then
        if held.take header.length = header then .done true held else .more
      else .done false held := by
  unfold v1VersionReader
  by_cases front : held.take header.length <+: header
  · simp only [List.isPrefixOf_iff_prefix.mpr front, Bool.not_true, Bool.false_eq_true, if_false,
      if_pos front]
  · have other : (held.take header.length).isPrefixOf header = false := by
      rw [← Bool.not_eq_true, List.isPrefixOf_iff_prefix]
      exact front
    simp only [other, Bool.not_false, if_true, if_neg front]

theorem readUntil_versionEnds (header : List Octet) (peer : Peer) :
    VersionEnds header peer (readUntil (v1VersionReader header) peer) := by
  rcases run : readUntil (v1VersionReader header) peer with ⟨error | answer, reached⟩
  · obtain ⟨-, -, decided⟩ := readUntil_error run
    rw [v1VersionReader_eq] at decided
    split at decided
    · rename_i front
      split at decided
      · rcases decided with refuse | ⟨more, -⟩
        · cases refuse
        · cases more
      · rename_i differs
        rcases decided with refuse | ⟨-, interrupted⟩
        · cases refuse
        · have whole : peer.promptAhead = reached.buffer := interrupted.buffer_eq
          have short : reached.buffer.length < header.length := by
            by_contra long
            refine differs (front.eq_of_length ?_)
            rw [List.length_take]
            omega
          rw [List.take_of_length_le (by omega), ← whole] at front differs
          exact ⟨front, differs, interrupted⟩
    · rcases decided with refuse | ⟨more, -⟩
      · cases refuse
      · cases more
  · obtain ⟨held, kept, promptly, paused, decided, -⟩ := readUntil_ok run
    have isFront : held <+: peer.promptAhead := ⟨_, promptly⟩
    rw [v1VersionReader_eq] at decided
    split at decided
    · split at decided
      · rename_i same
        obtain ⟨rfl, rfl⟩ := Verdict.done.inj decided
        refine ⟨?_, kept.symm, promptly.symm, paused⟩
        rw [← same]
        exact (List.take_prefix _ _).trans isFront
      · cases decided
    · rename_i other
      obtain ⟨rfl, rfl⟩ := Verdict.done.inj decided
      exact ⟨fun front => other ((isFront.take _).trans front), kept.symm, promptly.symm, paused⟩

/-! ## The handshake -/

def SameCipher (peer reached : Peer) : Prop := reached.cipher = peer.cipher

instance : IsPreorder Peer SameCipher where
  refl _ := rfl
  trans _ _ _ first second := Eq.trans second first

theorem readUntil_sameCipher {β : Type} (reader : Reader Octet β Raised) :
    Action.Moves SameCipher (readUntil reader) := by
  intro peer
  rw [SameCipher, readUntil_same reader peer]

theorem receivePacket_sameCipher (cipher : Cipher) :
    Action.Moves SameCipher (receivePacket cipher) := by
  have decrypts (ciphertext : List Octet) : Action.Moves SameCipher (decrypt cipher ciphertext) := by
    refine .bind (.unchanged fun _ => rfl) fun answer => .bind (fun _ => rfl) fun _ => ?_
    cases answer with
    | none => exact .unchanged fun _ => rfl
    | some packet => exact .unchanged fun _ => rfl
  have lengths : Action.Moves SameCipher (decryptLength cipher) := by
    refine .bind (readUntil_sameCipher _) fun octets => .bind (.unchanged fun _ => rfl) fun length => ?_
    exact .bind (fun _ => rfl) fun _ => .unchanged fun _ => rfl
  have body (length : Nat) :
      Action.Moves SameCipher (take (HEADER_LEN + length + TAG_LEN) >>= decrypt cipher) :=
    .bind (readUntil_sameCipher _) decrypts
  refine .bind (.unchanged fun _ => rfl) fun pending => ?_
  cases pending with
  | none => exact .bind lengths body
  | some length => exact .bind (.unchanged fun _ => rfl) fun _ => body _

theorem receiveVersionPacket_sameCipher (cipher : Cipher) :
    Action.Moves SameCipher (receiveVersionPacket cipher) := by
  intro peer
  induction size : peer.ahead.length using Nat.strong_induction_on generalizing peer with
  | _ count ih =>
      subst size
      have read := receivePacket_sameCipher cipher peer
      rcases run : receivePacket cipher peer with ⟨error | ⟨contents, ignore⟩, reached⟩
      · rw [receiveVersionPacket_of_error run]
        rw [run] at read
        exact read
      · rw [receiveVersionPacket_of_ok run]
        rw [run] at read
        split
        · exact (ih _ (receivePacket_shrinks run) reached rfl).trans read
        · exact read

/-- A handshake over v2 that returns leaves the connection encrypted. -/
theorem encryptedHandshake_encrypts {newCipher : NewCipher} {secrets : Secrets}
    {peer reached : Peer} (run : encryptedHandshake newCipher secrets peer = (.ok (), reached)) :
    reached.cipher ≠ none := by
  obtain ⟨_, _, _, run⟩ := Action.bind_ok_iff.mp run
  obtain ⟨ell, keyed, _, run⟩ := Action.bind_ok_iff.mp run
  rw [Action.read_bind] at run
  obtain ⟨_, said, saidRun, run⟩ := Action.bind_ok_iff.mp run
  cases saidRun
  obtain ⟨garbage, garbled, garbageRun, run⟩ := Action.bind_ok_iff.mp run
  rw [Action.update_bind] at run
  have afterGarbage := (readUntil_sameCipher (garbageReader _)).of_run garbageRun
  have afterVersion := (receiveVersionPacket_sameCipher _).of_run run
  have kept : reached.cipher = _ := afterVersion.trans afterGarbage
  rw [kept]
  nofun

/-! ## Whichever transport it is -/

/-- What the handshake takes as the other side's key, after sending its own. -/
def KeyTaken (secrets : Secrets) (peer opened : Peer) : Prop :=
  match (sendall (secrets.ellOurs ++ secrets.garbage) >>= fun _ => take ELL_SIZE) opened with
  | (.ok key, keyed) => key = peer.promptAhead.take ELL_SIZE ∧ Consumed key peer keyed
  | (.error error, _) => peer.promptAhead.length < ELL_SIZE ∧ error = raisedBy peer.pause

theorem keyTaken_of_consumed {secrets : Secrets} {peer opened : Peer}
    (consumed : Consumed [] peer opened) : KeyTaken secrets peer opened := by
  have said : Consumed [] peer { opened with sent := opened.sent ++ (secrets.ellOurs ++
      secrets.garbage) } := consumed.of_same rfl rfl
  unfold KeyTaken sendall
  rw [Action.update_bind]
  rcases run : take ELL_SIZE _ with ⟨error | key, keyed⟩
  · obtain ⟨short, interrupted, -⟩ := take_error run
    have interrupted := said.interrupted interrupted
    have isBuffer : peer.promptAhead = keyed.buffer := interrupted.buffer_eq
    exact ⟨by rw [isBuffer]; exact short, interrupted.error_eq⟩
  · obtain ⟨size, keyConsumed, -⟩ := take_ok run
    have consumed : Consumed key peer keyed := said.trans keyConsumed
    refine ⟨?_, consumed⟩
    rw [consumed.prompt_eq, ← size, List.take_left]

section Accepted

variable {wire : Wire} {magic : List Octet}

theorem v2Handshake_accepted (newCipher : NewCipher) (secrets : Secrets) {peer : Peer}
    (accepted : peer.dialled = false) :
    v2Handshake wire newCipher secrets peer =
      match opensWithV1Version wire peer with
      | (.ok true, opened) => (.ok (), opened)
      | (.ok false, opened) => encryptedHandshake newCipher secrets opened
      | (.error error, opened) => (.error error, opened) := by
  unfold v2Handshake
  rw [Action.read_bind, accepted, if_neg (by decide), Action.bind_apply]
  rcases opensWithV1Version wire peer with ⟨error | speaksV1, opened⟩
  · rfl
  · cases speaksV1 with
    | true => rfl
    | false => rfl

/-- A connection that opened with the header speaks v1, nothing sent and nothing consumed. -/
theorem opened_delivers {valid : Message → Prop} (code : PrefixCode wire valid)
    {arrivals : List (Arrival Octet)} {opened : Peer}
    (same : SameBut (adopt magic false arrivals) opened)
    (consumed : Consumed [] (adopt magic false arrivals) opened) :
    opened.cipher = none ∧ opened.sent = [] ∧
      ∀ messages, (∀ message ∈ messages, valid message ∧ message.magic = magic) →
        serializeAll wire messages <+: (adopt magic false arrivals).promptAhead →
        returnedMessages (run wire (List.replicate messages.length .receive) opened).1 =
          messages := by
  have plain : opened.cipher = none := by
    rw [same]
    rfl
  have sameMagic : opened.magic = magic := by
    rw [same]
    rfl
  refine ⟨plain, ?_, fun messages under arrived => ?_⟩
  · rw [same]
    rfl
  · refine run_delivers code messages plain (by rw [sameMagic]; exact under) ?_
    have sameStream : (adopt magic false arrivals).promptAhead = opened.promptAhead :=
      consumed.prompt_eq
    rw [← sameStream]
    exact arrived

/-- A connection a node opened speaks v1 exactly where its octets open with the header of a
`version`, and then every message of the stream is received.  It speaks v2 as soon as they
cannot, whatever arrives later, and the key is then the front of the stream.  Until either it
waits. -/
theorem accepted_opens {valid : Message → Prop} (code : PrefixCode wire valid)
    (framed : Framed wire magic) (newCipher : NewCipher) (secrets : Secrets)
    (arrivals : List (Arrival Octet)) :
    let peer := adopt magic false arrivals
    let stream := peer.promptAhead
    let handshake := v2Handshake wire newCipher secrets peer
    (handshake.1 = .ok () ∧ handshake.2.cipher = none ↔ v1Header magic <+: stream) ∧
    (v1Header magic <+: stream → handshake.2.sent = [] ∧ Consumed [] peer handshake.2 ∧
      ∀ messages, (∀ message ∈ messages, valid message ∧ message.magic = magic) →
        serializeAll wire messages <+: stream →
        returnedMessages (run wire (List.replicate messages.length .receive) handshake.2).1 =
          messages) ∧
    (¬ stream.take (v1Header magic).length <+: v1Header magic → ∃ opened,
      (∀ later, opensWithV1Version wire (adopt magic false (arrivals ++ later)) =
        (.ok false, { opened with arrivals := opened.arrivals ++ later })) ∧
      handshake = encryptedHandshake newCipher secrets opened ∧ Consumed [] peer opened ∧
      KeyTaken secrets peer opened) ∧
    (stream <+: v1Header magic → stream ≠ v1Header magic →
      handshake.1 = .error (raisedBy peer.pause) ∧ handshake.2.ahead = peer.ahead) := by
  intro peer stream handshake
  have isHandshake : handshake = _ := v2Handshake_accepted newCipher secrets rfl
  have isReader : opensWithV1Version wire peer =
      readUntil (v1VersionReader (v1Header magic)) peer := by
    rw [← versionHeader_framed framed]
    rfl
  have ends := readUntil_versionEnds (v1Header magic) peer
  have same := readUntil_same (v1VersionReader (v1Header magic)) peer
  rw [isReader] at isHandshake
  have antisymm {first second : List Octet} (front : first <+: second) (back : second <+: first) :
      first = second := front.eq_of_length_le back.length_le
  have taken (isV1 : v1Header magic <+: stream) :
      stream.take (v1Header magic).length <+: v1Header magic := by
    rw [← List.prefix_iff_eq_take.mp isV1]
  rcases run : readUntil (v1VersionReader (v1Header magic)) peer with ⟨error | speaksV1, opened⟩
  · rw [run] at ends isHandshake
    obtain ⟨front, differs, interrupted⟩ := ends
    have notV1 : ¬ v1Header magic <+: stream := fun isV1 => differs (antisymm front isV1)
    refine ⟨⟨fun ⟨returned, _⟩ => ?_, fun isV1 => absurd isV1 notV1⟩,
      fun isV1 => absurd isV1 notV1,
      fun other => absurd ((List.take_prefix _ _).trans front) other, fun _ _ => ?_⟩
    · rw [isHandshake] at returned
      cases returned
    · rw [isHandshake]
      exact ⟨congrArg Except.error interrupted.error_eq, interrupted.ahead_eq.symm⟩
  · cases speaksV1 with
    | true =>
        rw [run] at ends same isHandshake
        obtain ⟨isV1, consumed⟩ := ends
        obtain ⟨plain, unsent, delivers⟩ := opened_delivers code same consumed
        refine ⟨⟨fun _ => isV1, fun _ => ?_⟩, fun _ => ?_,
          fun other => absurd (taken isV1) other, fun front differs =>
            absurd (antisymm front isV1) differs⟩
        · rw [isHandshake]
          exact ⟨rfl, plain⟩
        · rw [isHandshake]
          exact ⟨unsent, consumed, delivers⟩
    | false =>
        rw [run] at ends isHandshake
        obtain ⟨other, consumed⟩ := ends
        have notV1 : ¬ v1Header magic <+: stream := fun isV1 => other (taken isV1)
        refine ⟨⟨fun ⟨returned, isPlain⟩ => ?_, fun isV1 => absurd isV1 notV1⟩,
          fun isV1 => absurd isV1 notV1, fun _ => ⟨opened, fun later => ?_, isHandshake, consumed,
            keyTaken_of_consumed consumed⟩,
          fun front _ => absurd ((List.take_prefix _ _).trans front) other⟩
        · rw [isHandshake] at returned isPlain
          refine absurd isPlain (encryptedHandshake_encrypts (Prod.ext returned rfl))
        · have appended := readUntil_append run later
          rw [← versionHeader_framed framed] at appended
          exact appended

end Accepted

def silentSecrets : Secrets where
  prvKey := 1
  ellOurs := List.replicate ELL_SIZE 1
  garbage := []
  decoys := []
  ellSize := List.length_replicate
  garbageBound := Nat.succ_pos _
  decoysBound := Nat.succ_pos _
  decoyBound := nofun

def versionArriving : List (Arrival Octet) :=
  [.chunk 0xfa [0xbf, 0xb5, 0xda, 0x76],
    .chunk 0x65 ((commandOctets "version").drop 2 ++ emptyTail ++ regtestMagic ++ verackTail)]

theorem accepted_opens_version :
    let peer := adopt regtestMagic false versionArriving
    let handshake := v2Handshake PlainWire.wire (fun _ _ _ _ _ => plainCipher [1] [2]) silentSecrets
      peer
    handshake.2.cipher = none ∧
      returnedMessages (run PlainWire.wire [.receive, .receive] handshake.2).1 =
        [⟨regtestMagic, "version", []⟩, ⟨regtestMagic, "verack", []⟩] := by
  have opens := accepted_opens PlainWire.wire_prefixCode
    (List.prefix_append (v1Header regtestMagic) _) (fun _ _ _ _ _ => plainCipher [1] [2])
    silentSecrets versionArriving
  obtain ⟨speaksV1, returns, _⟩ := opens
  have isV1 : v1Header regtestMagic <+: (adopt regtestMagic false versionArriving).promptAhead :=
    ⟨_, rfl⟩
  refine ⟨(speaksV1.mpr isV1).2, (returns isV1).2.2 [_, _] ?_ ⟨[], rfl⟩⟩
  have small : 0 < 256 ^ 4 := Nat.pos_of_neZero _
  refine List.forall_mem_cons.mpr ⟨⟨⟨rfl, List.mem_cons_self, small⟩, rfl⟩,
    List.forall_mem_singleton.mpr ⟨⟨rfl, ?_, small⟩, rfl⟩⟩
  exact List.mem_cons_of_mem _ List.mem_cons_self

end Peer

end BitcoinNodeTests
