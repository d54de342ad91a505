import BitcoinNodeTests.Peer.PacketStream

/-!
# Paired ciphers

Two ciphers are paired where one deciphers what the other encrypts, as long as the
garbage authenticates the first packet and no later one.  `plainCipher` is a cipher
that hides nothing but has BIP324's packet layout, and whose tag depends on how many
packets came before and on the associated data: it is paired with itself, and a
packet read out of order or with other associated data fails its authentication.
-/

set_option autoImplicit false

namespace BitcoinNodeTests

def packetOf (octets : List Octet) (encryption : Encryption) : Packet where
  lengthOctets := octets.take LENGTH_LEN
  body := octets.drop LENGTH_LEN
  contents := encryption.contents
  ignore := encryption.ignore

def packetsAfter (cipher : Cipher) : List Encryption → List Encryption → List Packet
  | _, [] => []
  | history, encryption :: rest =>
      packetOf (cipher.encrypt history encryption) encryption ::
        packetsAfter cipher (history ++ [encryption]) rest

/-- What a fresh cipher makes of the calls of `encrypt`, in order. -/
def encryptedPackets (cipher : Cipher) (encryptions : List Encryption) : List Packet :=
  packetsAfter cipher [] encryptions

def GarbageFirst (garbage : List Octet) : List Encryption → Prop
  | [] => True
  | first :: rest => first.aad = garbage ∧ ∀ later ∈ rest, later.aad = []

/-- Contents whose length three octets can tell. -/
def Encryptable (encryption : Encryption) : Prop := encryption.contents.length < 256 ^ LENGTH_LEN

instance : DecidablePred Encryptable := fun encryption =>
  inferInstanceAs (Decidable (encryption.contents.length < 256 ^ LENGTH_LEN))

structure Paired (sender receiver : Cipher) : Prop where
  sameTerminator : receiver.recvGarbageTerminator = sender.sendGarbageTerminator
  deciphers : ∀ garbage encryptions, GarbageFirst garbage encryptions →
    (∀ encryption ∈ encryptions, Encryptable encryption) →
    Deciphers receiver garbage (encryptedPackets sender encryptions)

theorem packetOf_octets (octets : List Octet) (encryption : Encryption) :
    (packetOf octets encryption).octets = octets :=
  List.take_append_drop LENGTH_LEN octets

theorem packetsAfter_append (cipher : Cipher) (history first second : List Encryption) :
    packetsAfter cipher history (first ++ second) =
      packetsAfter cipher history first ++ packetsAfter cipher (history ++ first) second := by
  induction first generalizing history with
  | nil => simp [packetsAfter]
  | cons encryption rest ih =>
      simp only [List.cons_append, packetsAfter, ih]
      rw [List.append_assoc]
      rfl

theorem packetsAfter_length (cipher : Cipher) (history encryptions : List Encryption) :
    (packetsAfter cipher history encryptions).length = encryptions.length := by
  induction encryptions generalizing history with
  | nil => rfl
  | cons encryption rest ih => simp [packetsAfter, ih]

/-- A packet of the stream was encrypted once those before it had been. -/
theorem packetsAfter_split {cipher : Cipher} {encryptions : List Encryption} :
    ∀ {history : List Encryption} {read later : List Packet} {packet : Packet},
      packetsAfter cipher history encryptions = read ++ packet :: later →
      ∃ before encryption after, encryptions = before ++ encryption :: after ∧
        read = packetsAfter cipher history before ∧
        packet = packetOf (cipher.encrypt (history ++ before) encryption) encryption := by
  induction encryptions with
  | nil =>
      intro history read later packet split
      simp [packetsAfter] at split
  | cons first rest ih =>
      intro history read later packet split
      cases read with
      | nil =>
          simp only [packetsAfter, List.nil_append, List.cons.injEq] at split
          refine ⟨[], first, rest, rfl, rfl, ?_⟩
          rw [List.append_nil]
          exact split.1.symm
      | cons packet' read =>
          simp only [packetsAfter, List.cons_append, List.cons.injEq] at split
          obtain ⟨rfl, split⟩ := split
          obtain ⟨before, encryption, after, rfl, rfl, rfl⟩ := ih split
          refine ⟨first :: before, encryption, after, rfl, rfl, ?_⟩
          rw [List.append_assoc]
          rfl

/-- The garbage is the associated data of a packet exactly where none comes before. -/
theorem GarbageFirst.aad_eq (cipher : Cipher) {garbage : List Octet}
    {before after : List Encryption} {encryption : Encryption}
    (placed : GarbageFirst garbage (before ++ encryption :: after)) :
    encryption.aad = aadAfter garbage (encryptedPackets cipher before) := by
  cases before with
  | nil => exact placed.1
  | cons first rest => exact placed.2 encryption (by simp)

theorem callsFor_length (garbage : List Octet) (packets : List Packet) :
    (callsFor garbage packets).length = 2 * packets.length := by
  induction packets generalizing garbage with
  | nil => rfl
  | cons packet rest ih =>
      simp only [callsFor, List.length_cons, ih]
      omega

/-! ## A cipher that hides nothing -/

def lengthToOctets (length : Nat) : List Octet :=
  [UInt8.ofNat length, UInt8.ofNat (length / 256), UInt8.ofNat (length / 65536)]

def lengthOfOctets : List Octet → Nat
  | [low, middle, high] => low.toNat + 256 * middle.toNat + 65536 * high.toNat
  | _ => 0

theorem lengthOfOctets_lengthToOctets {length : Nat} (fits : length < 256 ^ LENGTH_LEN) :
    lengthOfOctets (lengthToOctets length) = length := by
  have bound : length < 16777216 := fits
  simp only [lengthToOctets, lengthOfOctets, UInt8.toNat_ofNat']
  omega

def plainTag (count : Nat) (aad : List Octet) : List Octet :=
  UInt8.ofNat count :: UInt8.ofNat aad.length :: List.replicate 14 (aad.foldl (· + ·) 0)

def headerOctet (ignore : Bool) : Octet := if ignore then 0x80 else 0

def plainCipher (sendTerminator recvTerminator : List Octet) : Cipher where
  sendGarbageTerminator := sendTerminator
  recvGarbageTerminator := recvTerminator
  encrypt history encryption :=
    lengthToOctets encryption.contents.length ++
      headerOctet encryption.ignore :: (encryption.contents ++ plainTag history.length encryption.aad)
  decryptLength _ octets := lengthOfOctets octets
  decrypt calls ciphertext aad :=
    match ciphertext with
    | [] => none
    | header :: rest =>
        if rest.drop (rest.length - TAG_LEN) = plainTag (calls.length / 2) aad then
          some (rest.take (rest.length - TAG_LEN), header = headerOctet true)
        else none

theorem plainTag_length (count : Nat) (aad : List Octet) : (plainTag count aad).length = TAG_LEN := by
  simp [plainTag, TAG_LEN]

theorem plainCipher_decrypt (sendTerminator recvTerminator contents aad : List Octet)
    (calls : List CipherCall) (ignore : Bool) :
    (plainCipher sendTerminator recvTerminator).decrypt calls
      (headerOctet ignore :: (contents ++ plainTag (calls.length / 2) aad)) aad =
      some (contents, ignore) := by
  have cut : (contents ++ plainTag (calls.length / 2) aad).length - TAG_LEN = contents.length := by
    rw [List.length_append, plainTag_length]
    omega
  simp only [plainCipher, cut, List.drop_left, List.take_left, if_true]
  cases ignore <;> rfl

theorem plainCipher_paired (terminator answer other answer' : List Octet)
    (same : answer' = terminator) :
    Paired (plainCipher terminator answer) (plainCipher other answer') := by
  refine ⟨same, ?_⟩
  intro garbage encryptions placed fit read packet later split
  obtain ⟨before, encryption, after, rfl, rfl, rfl⟩ := packetsAfter_split split
  have sameAad : aadAfter garbage (packetsAfter (plainCipher terminator answer) [] before) =
      encryption.aad := (placed.aad_eq (plainCipher terminator answer)).symm
  have fits := fit encryption (by simp)
  have size := plainTag_length before.length encryption.aad
  have shape : packetOf ((plainCipher terminator answer).encrypt ([] ++ before) encryption)
      encryption = ⟨lengthToOctets encryption.contents.length,
        headerOctet encryption.ignore ::
          (encryption.contents ++ plainTag before.length encryption.aad),
        encryption.contents, encryption.ignore⟩ := rfl
  rw [shape]
  refine ⟨rfl, ?_, ?_, ?_⟩
  · simp only [List.length_cons, List.length_append, size, HEADER_LEN]
    omega
  · exact lengthOfOctets_lengthToOctets fits
  · have decrypted := plainCipher_decrypt other answer' encryption.contents encryption.aad
      (callsFor garbage (packetsAfter (plainCipher terminator answer) [] before) ++
        [CipherCall.decryptLength (lengthToOctets encryption.contents.length)]) encryption.ignore
    have count : (callsFor garbage (packetsAfter (plainCipher terminator answer) [] before) ++
        [CipherCall.decryptLength (lengthToOctets encryption.contents.length)]).length / 2 =
        before.length := by
      rw [List.length_append, callsFor_length, packetsAfter_length, List.length_singleton]
      omega
    rw [count] at decrypted
    rw [sameAad]
    exact decrypted

end BitcoinNodeTests
