import BitcoinNodeTests.Peer.Pairing

/-!
# BIP324's handshake

`_v2_handshake`: the key and the garbage, the other side's key, then the terminator, the
decoys and the version packet; the other side's garbage, its decoys and its version packet.
What `secrets` and `create` draw comes in as `Secrets`, and `newCipher` is btclib's `Cipher`.
-/

set_option autoImplicit false

namespace BitcoinNodeTests

open Foundation

def MAX_GARBAGE_LEN : Nat := 4095

def MAX_DECOYS : Nat := 10

def MAX_DECOY_LEN : Nat := 100

/-- What a handshake draws: the private key, its ElligatorSwift encoding, the garbage, and
`randbelow(_MAX_DECOY_LEN)` of each decoy. -/
structure Secrets where
  prvKey : Nat
  ellOurs : List Octet
  garbage : List Octet
  decoys : List Nat
  ellSize : ellOurs.length = ELL_SIZE
  garbageBound : garbage.length < MAX_GARBAGE_LEN + 1
  decoysBound : decoys.length < MAX_DECOYS + 1
  decoyBound : ∀ decoy ∈ decoys, decoy < MAX_DECOY_LEN

abbrev NewCipher : Type := Nat → List Octet → List Octet → Bool → List Octet → Cipher

/-- The decoys, then the version packet, the first of them authenticating the garbage. -/
def encryptionsOf (aad : List Octet) : List Nat → List Encryption
  | [] => [⟨[], aad, false⟩]
  | decoy :: rest => ⟨List.replicate (decoy + 1) 0, aad, true⟩ :: encryptionsOf [] rest

def Secrets.encryptions (secrets : Secrets) : List Encryption :=
  encryptionsOf secrets.garbage secrets.decoys

def findOctets (sub : List Octet) : List Octet → Option Nat
  | [] => if sub = [] then some 0 else none
  | octet :: rest =>
      if sub.isPrefixOf (octet :: rest) then some 0 else (findOctets sub rest).map (· + 1)

namespace Peer

/-- `Message(self._magic, "version").serialize()[: len(self._magic) + 12]` -/
def versionHeader (wire : Wire) (magic : List Octet) : List Octet :=
  (wire.serialize ⟨magic, "version", []⟩).take (magic.length + 12)

def v1VersionReader (header : List Octet) : Reader Octet Bool Raised := fun buffer =>
  let head := buffer.take header.length
  if !head.isPrefixOf header then .done false buffer
  else if head = header then .done true buffer
  else .more

def opensWithV1Version (wire : Wire) : Action Peer Raised Bool := do
  let magic ← Action.read magic
  readUntil (v1VersionReader (versionHeader wire magic))

def noGarbageTerminator : Raised :=
  .valueError s!"no garbage terminator within {MAX_GARBAGE_LEN} octets"

/-- One turn of `_take_garbage`'s loop: `find(terminator, 0, limit)`. -/
def garbageReader (terminator : List Octet) : Reader Octet (List Octet) Raised := fun buffer =>
  let limit := MAX_GARBAGE_LEN + terminator.length
  match findOctets terminator (buffer.take limit) with
  | some end_ => .done (buffer.take end_) (buffer.drop (end_ + terminator.length))
  | none => if limit ≤ buffer.length then .refuse noGarbageTerminator else .more

def takeGarbage (terminator : List Octet) : Action Peer Raised (List Octet) :=
  readUntil (garbageReader terminator)

def sendall (octets : List Octet) : Action Peer Raised Unit :=
  Action.update fun peer => { peer with sent := peer.sent ++ octets }

/-- The terminator and the packets are sent as one, from a cipher that has encrypted nothing. -/
def sendPackets (cipher : Cipher) (encryptions : List Encryption) : Action Peer Raised Unit :=
  Action.update fun peer =>
    { peer with
      sent := peer.sent ++
        (cipher.sendGarbageTerminator ++ packetsOctets (encryptedPackets cipher encryptions))
      encrypted := encryptions
      cipher := some cipher }

/-- `_v2_handshake` once the connection is known to speak v2. -/
def encryptedHandshake (newCipher : NewCipher) (secrets : Secrets) : Action Peer Raised Unit := do
  sendall (secrets.ellOurs ++ secrets.garbage)
  let ellTheirs ← take ELL_SIZE
  let cipher ← Action.read fun peer =>
    newCipher secrets.prvKey secrets.ellOurs ellTheirs peer.dialled peer.magic
  sendPackets cipher secrets.encryptions
  let garbage ← takeGarbage cipher.recvGarbageTerminator
  Action.update fun peer => { peer with aad := garbage }
  receiveVersionPacket cipher

def v2Handshake (wire : Wire) (newCipher : NewCipher) (secrets : Secrets) :
    Action Peer Raised Unit := do
  let dialled ← Action.read dialled
  if dialled then encryptedHandshake newCipher secrets
  else
    let speaksV1 ← opensWithV1Version wire
    if speaksV1 then pure () else encryptedHandshake newCipher secrets

end Peer

end BitcoinNodeTests
