import BitcoinNodeTests.Peer.Dialogue
import BitcoinNodeTests.Peer.PacketRun

/-!
# A side goes on from where it waited

Delivered more, a side that was waiting has sent at least what it had sent, and its calls have
returned at least what they had; one that was not has done just the same.
-/

set_option autoImplicit false

namespace BitcoinNodeTests

open Foundation

namespace Peer

def GivenMore (peer fuller : Peer) : Prop :=
  Arrival.Flowing peer.arrivals ∧
    ∃ more, fuller = { peer with arrivals := peer.arrivals ++ more }

def SentMore (peer later : Peer) : Prop := peer.sent <+: later.sent

instance : IsPreorder Peer SentMore where
  refl peer := List.prefix_refl peer.sent
  trans _ _ _ first second := List.IsPrefix.trans first second

/-- An action on a peer goes on from where it waited, and takes back nothing it sent. -/
abbrev GoesOn {α : Type} (action : Action Peer Raised α) : Prop :=
  Action.GoesOn .waiting GivenMore SentMore action

section GoesOn

variable {α : Type}

theorem GoesOn.read {view : Peer → α}
    (same : ∀ peer arrivals, view { peer with arrivals := arrivals } = view peer) :
    GoesOn (Action.read view : Action Peer Raised α) := by
  refine ⟨.read ?_, .unchanged fun _ => rfl⟩
  rintro peer fuller ⟨-, more, rfl⟩
  exact (same peer _).symm

/-- A change that neither reads the arrivals nor takes back what was sent. -/
theorem GoesOn.update {change : Peer → Peer}
    (same : ∀ peer arrivals, change { peer with arrivals := arrivals } =
      { change peer with arrivals := arrivals })
    (kept : ∀ peer, (change peer).arrivals = peer.arrivals)
    (sends : ∀ peer, peer.sent <+: (change peer).sent) :
    GoesOn (Action.update change : Action Peer Raised Unit) := by
  refine ⟨.update ?_, sends⟩
  rintro peer fuller ⟨flows, more, rfl⟩
  refine ⟨by rw [kept]; exact flows, more, ?_⟩
  rw [same, kept]

theorem readUntil_sent (reader : Reader Octet α Raised) (peer : Peer) :
    (readUntil reader peer).2.sent = peer.sent := by
  unfold readUntil
  dsimp only
  split
  · rfl
  · rfl
  · rfl

theorem readUntil_goesOn (reader : Reader Octet α Raised) : GoesOn (readUntil reader) := by
  refine ⟨?_, fun peer => ?_⟩
  · rintro peer fuller ⟨flows, more, rfl⟩
    obtain ⟨stillFlows, ended⟩ :=
      await_flowing (fun _ => RECV_SIZE) reader peer.buffer peer.arrivals flows
    rcases result : await (fun _ => RECV_SIZE) reader peer.buffer peer.arrivals with
      ⟨outcome, held, arrivals⟩
    rw [result] at stillFlows ended
    cases outcome with
    | interrupted why =>
        obtain ⟨rfl, -⟩ := ended why rfl
        refine .inl ⟨?_, ?_⟩
        · simp only [readUntil, result]
          rfl
        · unfold SentMore
          rw [readUntil_sent, readUntil_sent]
    | returned value =>
        have whole := @await_append _ _ _ (fun _ => RECV_SIZE) reader peer.buffer peer.arrivals
          (by simp [result]) more
        rw [result] at whole
        refine .inr ⟨?_, ?_, more, ?_⟩
        · simp only [readUntil, result, whole]
        · simp only [readUntil, result]
          exact stillFlows
        · simp only [readUntil, result, whole]
    | refused error =>
        have whole := @await_append _ _ _ (fun _ => RECV_SIZE) reader peer.buffer peer.arrivals
          (by simp [result]) more
        rw [result] at whole
        refine .inr ⟨?_, ?_, more, ?_⟩
        · simp only [readUntil, result, whole]
        · simp only [readUntil, result]
          exact stillFlows
        · simp only [readUntil, result, whole]
  · unfold SentMore
    rw [readUntil_sent]

end GoesOn

/-! ## The packets -/

section Packets

variable (cipher : Cipher)

theorem decryptLength_goesOn : GoesOn (decryptLength cipher) := by
  refine (readUntil_goesOn _).bind fun octets => .bind (GoesOn.read fun _ _ => rfl) fun length => ?_
  exact .bind (GoesOn.update (fun _ _ => rfl) (fun _ => rfl) fun _ => List.prefix_refl _)
    fun _ => .pure length

theorem decrypt_goesOn (ciphertext : List Octet) : GoesOn (decrypt cipher ciphertext) := by
  refine .bind (GoesOn.read fun _ _ => rfl) fun answer => ?_
  refine .bind (GoesOn.update (fun _ _ => rfl) (fun _ => rfl) fun _ => List.prefix_refl _) fun _ => ?_
  cases answer with
  | none => exact .raise _
  | some packet => exact .pure packet

theorem receivePacket_goesOn : GoesOn (receivePacket cipher) := by
  have body (length : Nat) :
      GoesOn (take (HEADER_LEN + length + TAG_LEN) >>= decrypt cipher) :=
    (readUntil_goesOn _).bind (decrypt_goesOn cipher)
  refine .bind (GoesOn.read fun _ _ => rfl) fun pending => ?_
  cases pending with
  | none => exact (decryptLength_goesOn cipher).bind body
  | some length => exact (Action.GoesOn.pure length).bind body

/-- A loop that reads packets on, one shorter stream at a time. -/
theorem packetLoop_goesOn {cipher : Cipher} {β : Type} {loop : Action Peer Raised β}
    (again : List Octet × Bool → Bool) (last : List Octet × Bool → Action Peer Raised β)
    (turn : loop = receivePacket cipher >>= fun answer =>
      if again answer then loop else last answer)
    (ends : ∀ answer, GoesOn (last answer)) : GoesOn loop := by
  have onAnswer (answer : List Octet × Bool) (moves : Action.Moves SentMore loop) :
      Action.Moves SentMore (if again answer then loop else last answer) := by
    split
    · exact moves
    · exact (ends answer).moves
  have moves : Action.Moves SentMore loop := by
    intro peer
    induction size : peer.ahead.length using Nat.strong_induction_on generalizing peer with
    | _ count ih =>
        subst size
        have read := (receivePacket_goesOn cipher).moves peer
        rw [congrFun turn peer, Action.bind_apply]
        rcases run : receivePacket cipher peer with ⟨error | answer, reached⟩
        · rw [run] at read
          exact read
        · rw [run] at read
          dsimp only
          split
          · exact read.trans (ih _ (receivePacket_shrinks run) reached rfl)
          · exact read.trans ((ends answer).moves reached)
  refine ⟨fun peer => ?_, moves⟩
  induction size : peer.ahead.length using Nat.strong_induction_on generalizing peer with
  | _ count ih =>
      subst size
      rw [turn]
      refine ((receivePacket_goesOn cipher).resumes peer).bind (fun answer => onAnswer answer moves)
        fun answer reached run => ?_
      split
      · exact ih _ (receivePacket_shrinks run) reached rfl
      · exact (ends answer).resumes reached

theorem receiveVersionPacket_goesOn : GoesOn (receiveVersionPacket cipher) := by
  have turn : receiveVersionPacket cipher = receivePacket cipher >>= fun answer =>
      if answer.2 then receiveVersionPacket cipher else pure () := by
    funext peer
    rw [Action.bind_apply]
    rcases run : receivePacket cipher peer with ⟨error | ⟨contents, ignore⟩, reached⟩
    · exact receiveVersionPacket_of_error run
    · rw [receiveVersionPacket_of_ok run]
      cases ignore with
      | true => rfl
      | false => rfl
  exact packetLoop_goesOn Prod.snd (fun _ => pure ()) turn fun _ => .pure ()

def lastContents (wire : Wire) (answer : List Octet × Bool) : Action Peer Raised Message :=
  match wire.messageFromContents answer.1 with
  | none => Action.raise .btclibValueError
  | some (command, payload) => do
      let magic ← Action.read magic
      pure ⟨magic, command, payload⟩

theorem receiveV2_goesOn (wire : Wire) : GoesOn (receiveV2 wire cipher) := by
  have turn : receiveV2 wire cipher = receivePacket cipher >>= fun answer =>
      if answer.2 || (wire.messageFromContents answer.1).isNone then receiveV2 wire cipher
      else lastContents wire answer := by
    funext peer
    rw [Action.bind_apply]
    rcases run : receivePacket cipher peer with ⟨error | ⟨contents, ignore⟩, reached⟩
    · exact receiveV2_of_error run
    · rw [receiveV2_of_ok run]
      cases ignore with
      | true => rfl
      | false =>
          cases read : wire.messageFromContents contents with
          | none => simp [read]
          | some message => simp [read, lastContents]
  refine packetLoop_goesOn _ (lastContents wire) turn fun answer => ?_
  unfold lastContents
  split
  · exact .raise _
  · exact .bind (GoesOn.read fun _ _ => rfl) fun magic => .pure _

end Packets

/-! ## The handshake and the calls -/

theorem encryptedHandshake_goesOn (newCipher : NewCipher) (secrets : Secrets) :
    GoesOn (encryptedHandshake newCipher secrets) := by
  refine .bind (GoesOn.update (fun _ _ => rfl) (fun _ => rfl) fun _ => List.prefix_append _ _)
    fun _ => (readUntil_goesOn _).bind fun ellTheirs => ?_
  refine .bind (GoesOn.read fun _ _ => rfl) fun cipher => ?_
  refine .bind (GoesOn.update (fun _ _ => rfl) (fun _ => rfl) fun _ => List.prefix_append _ _)
    fun _ => (readUntil_goesOn _).bind fun garbage => ?_
  exact .bind (GoesOn.update (fun _ _ => rfl) (fun _ => rfl) fun _ => List.prefix_refl _)
    fun _ => receiveVersionPacket_goesOn cipher

theorem v2Handshake_goesOn (wire : Wire) (newCipher : NewCipher) (secrets : Secrets) :
    GoesOn (v2Handshake wire newCipher secrets) := by
  refine .bind (GoesOn.read fun _ _ => rfl) fun dialled => ?_
  split
  · exact encryptedHandshake_goesOn newCipher secrets
  · have opens : GoesOn (opensWithV1Version wire) :=
      .bind (GoesOn.read fun _ _ => rfl) fun magic => readUntil_goesOn _
    refine opens.bind fun speaksV1 => ?_
    split
    · exact .pure ()
    · exact encryptedHandshake_goesOn newCipher secrets

theorem receive_goesOn (wire : Wire) : GoesOn (receive wire) := by
  have counted (message : Message) :
      GoesOn (Action.update (count message) >>= fun _ => pure message) :=
    .bind (GoesOn.update (fun _ _ => rfl) (fun _ => rfl) fun _ => List.prefix_refl _)
      fun _ => .pure message
  refine .bind (GoesOn.read fun _ _ => rfl) fun cipher => ?_
  cases cipher with
  | none =>
      have v1 : GoesOn (receiveV1 wire) :=
        .bind (GoesOn.read fun _ _ => rfl) fun magic => readUntil_goesOn _
      exact v1.bind counted
  | some cipher => exact (receiveV2_goesOn cipher wire).bind counted

def sendOver (wire : Wire) (command : String) (payload : List Octet) (isDecoy : Bool) :
    Option Cipher → Action Peer Raised Unit
  | none =>
      if isDecoy then
        Action.raise (.valueError "a decoy is a v2 packet, and this connection speaks v1")
      else
        Action.update fun peer =>
          { peer with sent := peer.sent ++ wire.serialize ⟨peer.magic, command, payload⟩ }
  | some cipher =>
      Action.update fun peer =>
        { peer with
          sent := peer.sent ++ cipher.encrypt peer.encrypted
            ⟨wire.contentsFromMessage command payload, [], isDecoy⟩
          encrypted := peer.encrypted ++
            [⟨wire.contentsFromMessage command payload, [], isDecoy⟩] }

theorem send_eq (wire : Wire) (command : String) (payload : List Octet) (isDecoy : Bool) :
    send wire command payload isDecoy =
      Action.read cipher >>= sendOver wire command payload isDecoy := by
  funext peer
  unfold send
  rw [Action.read_bind, Action.read_bind]
  rfl

theorem send_goesOn (wire : Wire) (command : String) (payload : List Octet) (isDecoy : Bool) :
    GoesOn (send wire command payload isDecoy) := by
  rw [send_eq]
  refine .bind (GoesOn.read fun _ _ => rfl) fun cipher => ?_
  cases cipher with
  | none =>
      rw [sendOver]
      split
      · exact .raise _
      · exact GoesOn.update (fun _ _ => rfl) (fun _ => rfl) fun _ => List.prefix_append _ _
  | some cipher => exact GoesOn.update (fun _ _ => rfl) (fun _ => rfl) fun _ => List.prefix_append _ _

end Peer

/-! ## Both sides -/

namespace Talker

structure GivenMore (talker fuller : Talker) : Prop where
  peer : Peer.GivenMore talker.peer fuller.peer
  returned : fuller.returned = talker.returned
  said : fuller.said = talker.said

structure Further (talker later : Talker) : Prop where
  sent : talker.peer.sent <+: later.peer.sent
  returned : talker.returned <+: later.returned
  said : talker.said <+: later.said

instance : IsPreorder Talker Further where
  refl _ := ⟨List.prefix_refl _, List.prefix_refl _, List.prefix_refl _⟩
  trans _ _ _ first second := ⟨first.sent.trans second.sent,
    first.returned.trans second.returned, first.said.trans second.said⟩

abbrev GoesOn {α : Type} (action : Action Talker Raised α) : Prop :=
  Action.GoesOn .waiting GivenMore Further action

theorem onPeer_goesOn {α : Type} {action : Action Peer Raised α} (goes : Peer.GoesOn action) :
    GoesOn (onPeer action) := by
  refine goes.onPart (fun gives => gives.peer) (fun gives later => ?_) (fun gives sent => ?_)
    fun sent => ⟨sent, List.prefix_refl _, List.prefix_refl _⟩
  · exact ⟨later, gives.returned, gives.said⟩
  · refine ⟨sent, ?_, ?_⟩
    · exact gives.returned ▸ List.prefix_refl _
    · exact gives.said ▸ List.prefix_refl _

theorem perform_goesOn (wire : Wire) (op : Op) : GoesOn (perform wire op) := by
  cases op with
  | send command payload isDecoy =>
      refine (onPeer_goesOn (Peer.send_goesOn wire command payload isDecoy)).bind fun _ => ⟨?_, ?_⟩
      · refine .update ?_
        rintro talker fuller ⟨⟨flows, more, isFuller⟩, returned, said⟩
        cases isDecoy with
        | true => exact ⟨⟨flows, more, isFuller⟩, returned, said⟩
        | false =>
            refine ⟨⟨flows, more, isFuller⟩, returned, ?_⟩
            simp [said, isFuller]
      · intro talker
        cases isDecoy with
        | true => exact ⟨List.prefix_refl _, List.prefix_refl _, List.prefix_refl _⟩
        | false => exact ⟨List.prefix_refl _, List.prefix_refl _, List.prefix_append _ _⟩
  | receive =>
      refine (onPeer_goesOn (Peer.receive_goesOn wire)).bind fun message => ⟨?_, ?_⟩
      · refine .update ?_
        rintro talker fuller ⟨gives, returned, said⟩
        exact ⟨gives, by simp [returned], said⟩
      · intro _
        exact ⟨List.prefix_refl _, List.prefix_append _ _, List.prefix_refl _⟩

theorem performAll_goesOn (wire : Wire) (ops : List Op) : GoesOn (performAll wire ops) := by
  induction ops with
  | nil => exact .pure ()
  | cons op rest ih => exact (perform_goesOn wire op).bind fun _ => ih

end Talker

namespace Dialogue

variable (dialogue : Dialogue)

theorem flowing_chunks (chunks : List Chunk) : Arrival.Flowing (chunks.map Chunk.arrival) := by
  intro arrival member
  obtain ⟨chunk, -, rfl⟩ := List.mem_map.mp member
  exact ⟨chunk.first, chunk.rest, rfl⟩

theorem adopted_givenMore (side : Bool) (chunks more : List Chunk) :
    Peer.GivenMore (dialogue.adopted side chunks) (dialogue.adopted side (chunks ++ more)) := by
  refine ⟨flowing_chunks chunks, more.map Chunk.arrival, ?_⟩
  unfold adopted
  rw [List.map_append]
  rfl

theorem program_goesOn (side : Bool) : Talker.GoesOn (dialogue.program side) :=
  (Talker.onPeer_goesOn (Peer.v2Handshake_goesOn _ _ _)).bind fun _ =>
    Talker.performAll_goesOn _ _

/-- Delivered more, a side is further on. -/
theorem ran_further (side : Bool) (chunks more : List Chunk) :
    Talker.Further (dialogue.ran side chunks).2 (dialogue.ran side (chunks ++ more)).2 := by
  have gives : Talker.GivenMore ⟨dialogue.adopted side chunks, [], []⟩
      ⟨dialogue.adopted side (chunks ++ more), [], []⟩ :=
    ⟨dialogue.adopted_givenMore side chunks more, rfl, rfl⟩
  rcases (dialogue.program_goesOn side).resumes _ _ gives with ⟨-, further⟩ | ⟨-, given⟩
  · exact further
  · obtain ⟨⟨-, arrivals, same⟩, returned, said⟩ := given
    refine ⟨?_, ?_, ?_⟩
    · exact (congrArg Peer.sent same) ▸ List.prefix_refl _
    · exact returned ▸ List.prefix_refl _
    · exact said ▸ List.prefix_refl _

end Dialogue

end BitcoinNodeTests
