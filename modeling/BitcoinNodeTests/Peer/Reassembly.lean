import Mathlib.Data.List.Infix
import BitcoinNodeTests.Peer.Receive

/-!
# Reassembly of the v1 stream

The stream is the serializations of some messages under the connection's magic and
then octets that do not open with it, of which any front may have arrived.  Between
any two calls the octets ahead, those still to come appended, are the messages not
returned yet and the foreign octets: `InStep`.  One call of `receive` moves it past
one message or not at all, a probe leaves it, and the run follows by induction.
-/

set_option autoImplicit false

namespace BitcoinNodeTests

open Foundation

namespace Peer

/-- `Message.parse` as a prefix code: it takes exactly one serialized message from
the front of its stream, and its proper prefixes are incomplete. -/
structure PrefixCode (wire : Wire) (valid : Message → Prop) : Prop where
  whole : ∀ message rest, valid message →
    wire.parse (wire.serialize message ++ rest) =
      .whole message (wire.serialize message).length
  incomplete : ∀ message octets, valid message → octets <+: wire.serialize message →
    octets ≠ wire.serialize message → wire.parse octets = .incomplete
  magic_first : ∀ message, valid message → message.magic <+: wire.serialize message
  magic_length : ∀ message, valid message → message.magic.length = 4
  any_magic : ∀ magic, magic.length = 4 → valid ⟨magic, "verack", []⟩

def serializeAll (wire : Wire) (messages : List Message) : List Octet :=
  messages.flatMap wire.serialize

/-- Octets that do not open with the magic, once there are enough of them to tell. -/
def Foreign (magic octets : List Octet) : Prop :=
  magic.length ≤ octets.length → octets.take magic.length ≠ magic

section Reader

variable {wire : Wire} {valid : Message → Prop} {magic : List Octet}

theorem messageReader_whole (code : PrefixCode wire valid) {message : Message}
    (isValid : valid message) (under : message.magic = magic) (rest : List Octet) :
    messageReader wire magic (wire.serialize message ++ rest) = .done message rest := by
  obtain ⟨body, split⟩ := code.magic_first message isValid
  have head : (wire.serialize message ++ rest).take magic.length = magic := by
    rw [← split, under, List.append_assoc, List.take_left]
  unfold messageReader
  simp only [head, ne_eq, not_true_eq_false, and_false, if_false]
  rw [code.whole message rest isValid]
  simp only [List.drop_left]

theorem messageReader_unfinished (code : PrefixCode wire valid) {message : Message}
    (isValid : valid message) (under : message.magic = magic) {held : List Octet}
    (front : held <+: wire.serialize message) (proper : held ≠ wire.serialize message) :
    messageReader wire magic held = .more := by
  have head : ¬ ((held.take magic.length).length = magic.length ∧
      held.take magic.length ≠ magic) := by
    rintro ⟨long, differs⟩
    have taken : held.take magic.length <+: wire.serialize message :=
      (List.take_prefix _ held).trans front
    have opening := code.magic_first message isValid
    rw [under] at opening
    exact differs ((List.prefix_of_prefix_length_le taken opening
      (Nat.le_of_eq long)).eq_of_length long)
  unfold messageReader
  simp only [head, if_false]
  rw [code.incomplete message held isValid front proper]

/-- Fewer octets than the magic are the front of some message, whatever they are. -/
theorem messageReader_short (code : PrefixCode wire valid) (four : magic.length = 4)
    {held : List Octet} (short : held.length < magic.length) :
    messageReader wire magic held = .more := by
  let padded := held ++ List.replicate (4 - held.length) 0
  have paddedLength : padded.length = 4 := by
    simp only [padded, List.length_append, List.length_replicate]
    omega
  have isValid := code.any_magic padded paddedLength
  have opening := code.magic_first _ isValid
  have front : held <+: wire.serialize ⟨padded, "verack", []⟩ :=
    (List.prefix_append held _).trans opening
  have longer : held.length < (wire.serialize ⟨padded, "verack", []⟩).length := by
    have := opening.length_le
    simp only at this
    omega
  have proper : held ≠ wire.serialize ⟨padded, "verack", []⟩ := by
    intro same
    rw [← same] at longer
    exact absurd longer (lt_irrefl _)
  unfold messageReader
  have notLong : ¬ (held.take magic.length).length = magic.length := by
    rw [List.length_take]
    omega
  simp only [notLong, false_and, if_false]
  rw [code.incomplete _ held isValid front proper]

theorem messageReader_foreign {held : List Octet} (enough : magic.length ≤ held.length)
    (differs : held.take magic.length ≠ magic) :
    messageReader wire magic held =
      .refuse (magicMismatch (held.take magic.length) magic) := by
  have long : (held.take magic.length).length = magic.length := by
    rw [List.length_take]
    omega
  simp [messageReader, long, differs]

end Reader

/-! ## One call -/

/-- The octets ahead and those still to come are `rest`, none of it returned yet,
and then `foreign`. -/
structure InStep (wire : Wire) (rest : List Message) (foreign unsent : List Octet)
    (peer : Peer) : Prop where
  plain : peer.cipher = none
  stream : peer.ahead ++ unsent = serializeAll wire rest ++ foreign

theorem InStep.same {wire : Wire} {rest : List Message} {foreign unsent : List Octet}
    {peer reached : Peer} (inStep : InStep wire rest foreign unsent peer)
    (kept : reached.ahead = peer.ahead) (same : SameBut peer reached) :
    InStep wire rest foreign unsent reached := by
  refine ⟨?_, by rw [kept, inStep.stream]⟩
  rw [same]
  exact inStep.plain

theorem receive_plain {wire : Wire} {peer : Peer} (plain : peer.cipher = none) :
    receive wire peer = match readUntil (messageReader wire peer.magic) peer with
      | (.ok message, reached) => (.ok message, count message reached)
      | (.error error, reached) => (.error error, reached) := by
  have chosen : (intake.peer peer).cipher = none := plain
  simp only [receive, Intake.receive, Action.read_bind, chosen, Intake.receiveV1]
  have reads : intake.readUntil (messageReader wire (intake.peer peer).magic) peer =
      readUntil (messageReader wire peer.magic) peer := rfl
  rw [Action.bind_apply, Action.read_bind, reads]
  rcases readUntil (messageReader wire peer.magic) peer with ⟨_ | message, reached⟩
  · rfl
  · rfl

/-- What the next call of `receive` does with `rest` still to return: give its first
message; refuse octets that open with another magic once `rest` is empty, and no
other; or be interrupted as the connection was, holding no whole message.  Nothing is
consumed but a message returned. -/
def NextReceive (wire : Wire) (rest : List Message) (peer : Peer) : Prop :=
  match receive wire peer with
  | (.ok message, reached) =>
      ∃ later, rest = message :: later ∧ Consumed (wire.serialize message) peer reached
  | (.error error, reached) =>
      reached.ahead = peer.ahead ∧
        ((rest = [] ∧ peer.magic.length ≤ reached.buffer.length ∧
            reached.buffer.take peer.magic.length ≠ peer.magic ∧
            error = magicMismatch (reached.buffer.take peer.magic.length) peer.magic) ∨
          (Interrupted [] peer reached error ∧ ¬ error.IsValueError ∧
            (∀ message later, rest = message :: later →
              reached.buffer.length < (wire.serialize message).length) ∧
            (rest = [] → reached.buffer.length < peer.magic.length)))

section Calls

variable {wire : Wire} {valid : Message → Prop} {rest : List Message}
  {foreign unsent : List Octet} {peer : Peer}

/-- The reader's verdict on any front of the stream. -/
theorem verdict_on_front (code : PrefixCode wire valid) {magic : List Octet}
    (four : magic.length = 4) (under : ∀ message ∈ rest, valid message ∧ message.magic = magic)
    (notOurs : Foreign magic foreign) {held later : List Octet}
    (front : held ++ later = serializeAll wire rest ++ foreign) :
    (∃ message more left, rest = message :: more ∧ held = wire.serialize message ++ left ∧
        messageReader wire magic held = .done message left) ∨
      (rest = [] ∧ magic.length ≤ held.length ∧ held.take magic.length ≠ magic ∧
        messageReader wire magic held =
          .refuse (magicMismatch (held.take magic.length) magic)) ∨
      (messageReader wire magic held = .more ∧
        (∀ message more, rest = message :: more →
          held.length < (wire.serialize message).length) ∧
        (rest = [] → held.length < magic.length)) := by
  have isFront : held <+: serializeAll wire rest ++ foreign := ⟨later, front⟩
  cases rest with
  | nil =>
      have isForeign : held <+: foreign := by simpa [serializeAll] using isFront
      by_cases enough : magic.length ≤ held.length
      · have differs : held.take magic.length ≠ magic := by
          have long := isForeign.length_le
          obtain ⟨tail, rfl⟩ := isForeign
          have other := notOurs (by omega)
          rwa [List.take_append_of_le_length enough] at other
        exact Or.inr (Or.inl ⟨rfl, enough, differs, messageReader_foreign enough differs⟩)
      · refine Or.inr (Or.inr ⟨messageReader_short code four (by omega), ?_, fun _ => by omega⟩)
        intro message more impossible
        cases impossible
  | cons message more =>
      obtain ⟨isValid, sameMagic⟩ := under message (by simp)
      have whole : wire.serialize message <+: serializeAll wire (message :: more) ++ foreign := by
        simp [serializeAll]
      by_cases complete : (wire.serialize message).length ≤ held.length
      · obtain ⟨left, rfl⟩ := List.prefix_of_prefix_length_le whole isFront complete
        exact Or.inl ⟨message, more, left, rfl, rfl,
          messageReader_whole code isValid sameMagic left⟩
      · have short : held.length < (wire.serialize message).length := by omega
        have piece := List.prefix_of_prefix_length_le isFront whole (by omega)
        have proper : held ≠ wire.serialize message := by
          intro same
          rw [same] at short
          exact absurd short (lt_irrefl _)
        refine Or.inr (Or.inr ⟨messageReader_unfinished code isValid sameMagic piece proper, ?_, ?_⟩)
        · intro message' more' same
          obtain ⟨rfl, rfl⟩ : message = message' ∧ more = more' := by simpa using same
          exact short
        · intro impossible
          cases impossible

/-- One call of `receive`, from any state in step with the stream. -/
theorem receive_inStep (code : PrefixCode wire valid) (four : peer.magic.length = 4)
    (under : ∀ message ∈ rest, valid message ∧ message.magic = peer.magic)
    (notOurs : Foreign peer.magic foreign) (inStep : InStep wire rest foreign unsent peer) :
    NextReceive wire rest peer := by
  unfold NextReceive
  rw [receive_plain inStep.plain]
  rcases run : readUntil (messageReader wire peer.magic) peer with ⟨error | message, reached⟩
  · obtain ⟨kept, -, verdict⟩ := readUntil_error run
    have front : reached.buffer ++ (Arrival.octets reached.arrivals ++ unsent) =
        serializeAll wire rest ++ foreign := by
      rw [← List.append_assoc, ← inStep.stream, ← kept]
      rfl
    refine ⟨kept, ?_⟩
    rcases verdict_on_front code four under notOurs front with
      ⟨message, more, left, -, -, done⟩ | ⟨empty, enough, differs, refused⟩ | ⟨more, short, few⟩
    · rcases verdict with verdict | ⟨verdict, -⟩
      · rw [done] at verdict
        cases verdict
      · rw [done] at verdict
        cases verdict
    · rcases verdict with verdict | ⟨verdict, -⟩
      · rw [refused] at verdict
        cases verdict
        exact Or.inl ⟨empty, enough, differs, rfl⟩
      · rw [refused] at verdict
        cases verdict
    · rcases verdict with verdict | ⟨-, interrupted⟩
      · rw [more] at verdict
        cases verdict
      · exact Or.inr ⟨interrupted, interrupted.not_valueError, short, few⟩
  · obtain ⟨held, kept, promptly, paused, verdict, -⟩ := readUntil_ok run
    have front : held ++ (Arrival.octets reached.arrivals ++ unsent) =
        serializeAll wire rest ++ foreign := by
      rw [← List.append_assoc, kept, inStep.stream]
    rcases verdict_on_front code four under notOurs front with
      ⟨first, more, left, sameRest, sameHeld, done⟩ | ⟨-, -, -, refused⟩ | ⟨more, -⟩
    · rw [done] at verdict
      cases verdict
      refine ⟨more, sameRest, ?_, ?_, paused⟩
      · rw [← kept, sameHeld, List.append_assoc]
        rfl
      · rw [← promptly, sameHeld, List.append_assoc]
        rfl
    · rw [refused] at verdict
      cases verdict
    · rw [more] at verdict
      cases verdict

end Calls

/-! ## A run of calls -/

/-- After some calls: the messages returned, those still to come, and the record of
the ones returned. -/
structure Reassembled (wire : Wire) (returned rest : List Message) (foreign unsent : List Octet)
    (magic : List Octet) (peer : Peer) : Prop where
  inStep : InStep wire rest foreign unsent peer
  counts : Counts returned peer
  sameMagic : peer.magic = magic

section Runs

variable {wire : Wire} {valid : Message → Prop} {foreign unsent magic : List Octet}

/-- What one call preserves. -/
theorem perform_reassembles (code : PrefixCode wire valid) (four : magic.length = 4)
    (notOurs : Foreign magic foreign) {returned rest : List Message} {peer : Peer}
    (under : ∀ message ∈ rest, valid message ∧ message.magic = magic)
    (before : Reassembled wire returned rest foreign unsent magic peer) (call : Call) :
    ∃ given later, rest = given ++ later ∧
      returnedMessages [(perform wire call peer).1] = given ∧
      peer.ahead = serializeAll wire given ++ (perform wire call peer).2.ahead ∧
      Reassembled wire (returned ++ given) later foreign unsent magic (perform wire call peer).2 := by
  obtain ⟨inStep, counts, rfl⟩ := before
  cases call with
  | isConnected =>
      obtain ⟨answer, reached, probed, kept, same⟩ := isConnected_spec peer
      simp only [perform, probed]
      refine ⟨[], rest, rfl, rfl, kept.symm, ?_⟩
      refine ⟨inStep.same kept same, ?_, by rw [same]⟩
      rw [List.append_nil]
      exact counts.same (by rw [same]) (by rw [same])
  | receive =>
      have next := receive_inStep code four under notOurs inStep
      unfold NextReceive at next
      rw [receive_plain inStep.plain] at next
      simp only [perform]
      rw [receive_plain inStep.plain]
      rcases readRun : readUntil (messageReader wire peer.magic) peer with
        ⟨error | message, reached⟩
      · rw [readRun] at next
        obtain ⟨kept, same, -⟩ := readUntil_error readRun
        refine ⟨[], rest, rfl, rfl, kept.symm, ?_⟩
        refine ⟨inStep.same kept same, ?_, by rw [same]⟩
        rw [List.append_nil]
        exact counts.same (by rw [same]) (by rw [same])
      · rw [readRun] at next
        obtain ⟨later, rfl, consumed⟩ := next
        have front := consumed.ahead_eq
        obtain ⟨-, -, -, -, -, same⟩ := readUntil_ok readRun
        have moved : reached.ahead ++ unsent = serializeAll wire later ++ foreign := by
          have stream := inStep.stream
          rw [front] at stream
          have split : serializeAll wire (message :: later) =
              wire.serialize message ++ serializeAll wire later := rfl
          rw [split, List.append_assoc, List.append_assoc] at stream
          exact List.append_cancel_left stream
        have plain : reached.cipher = none := by
          rw [same]
          exact inStep.plain
        have countsReached : Counts returned reached :=
          counts.same (by rw [same]) (by rw [same])
        refine ⟨[message], later, rfl, rfl, ?_, ⟨plain, moved⟩, countsReached.count message, ?_⟩
        · rw [front]
          simp only [serializeAll, List.flatMap_cons, List.flatMap_nil, List.append_nil]
        · simp only [Peer.count]
          rw [same]

/-- What a run of calls preserves, by induction on the calls. -/
theorem run_reassembles (code : PrefixCode wire valid) (four : magic.length = 4)
    (notOurs : Foreign magic foreign) (calls : List Call) :
    ∀ (returned rest : List Message) (peer : Peer),
      (∀ message ∈ rest, valid message ∧ message.magic = magic) →
      Reassembled wire returned rest foreign unsent magic peer →
      ∃ given later, rest = given ++ later ∧
        returnedMessages (run wire calls peer).1 = given ∧
        peer.ahead = serializeAll wire given ++ (run wire calls peer).2.ahead ∧
        Reassembled wire (returned ++ given) later foreign unsent magic (run wire calls peer).2 := by
  induction calls with
  | nil =>
      intro returned rest peer _ before
      refine ⟨[], rest, rfl, rfl, rfl, ?_⟩
      rw [List.append_nil]
      exact before
  | cons call calls ih =>
      intro returned rest peer under before
      obtain ⟨first, middle, rfl, firstGiven, firstFront, between⟩ :=
        perform_reassembles code four notOurs under before call
      have underMiddle : ∀ message ∈ middle, valid message ∧ message.magic = magic :=
        fun message member => under message (by simp [member])
      obtain ⟨given, later, rfl, restGiven, restFront, after⟩ :=
        ih (returned ++ first) middle (perform wire call peer).2 underMiddle between
      refine ⟨first ++ given, later, by rw [List.append_assoc], ?_, ?_, ?_⟩
      · rw [returnedMessages_run_cons, firstGiven, restGiven]
      · rw [firstFront, restFront, serializeAll, serializeAll, serializeAll,
          List.flatMap_append, List.append_assoc]
        rfl
      · rw [← List.append_assoc]
        exact after

/-- Whatever the cutting into chunks, the waits that end, the probes and the close,
the calls of `receive` that return give a front of the messages sent, in order; the
octets ahead are what is left of the stream, the record is that of the messages
returned, and the next call does what `NextReceive` says. -/
theorem receive_reassembles (code : PrefixCode wire valid) (four : magic.length = 4)
    (notOurs : Foreign magic foreign) (dialled : Bool) (messages : List Message)
    (under : ∀ message ∈ messages, valid message ∧ message.magic = magic)
    (arrivals : List (Arrival Octet))
    (arriving : Arrival.octets arrivals ++ unsent = serializeAll wire messages ++ foreign)
    (calls : List Call) :
    ∃ given later, messages = given ++ later ∧
      returnedMessages (run wire calls (adopt magic dialled arrivals)).1 = given ∧
      Arrival.octets arrivals =
        serializeAll wire given ++ (run wire calls (adopt magic dialled arrivals)).2.ahead ∧
      Counts given (run wire calls (adopt magic dialled arrivals)).2 ∧
      NextReceive wire later (run wire calls (adopt magic dialled arrivals)).2 := by
  have fresh : Reassembled wire [] messages foreign unsent magic (adopt magic dialled arrivals) :=
    ⟨⟨rfl, arriving⟩, ⟨fun _ => rfl, fun _ => rfl⟩, rfl⟩
  obtain ⟨given, later, rfl, returned, front, after⟩ :=
    run_reassembles code four notOurs calls [] messages (adopt magic dialled arrivals) under fresh
  obtain ⟨inStep, counts, sameMagic⟩ := after
  refine ⟨given, later, rfl, returned, front, counts, ?_⟩
  have underLater : ∀ message ∈ later, valid message ∧
      message.magic = (run wire calls (adopt magic dialled arrivals)).2.magic := by
    intro message member
    rw [sameMagic]
    exact under message (by simp [member])
  refine receive_inStep code ?_ underLater ?_ inStep
  · rw [sameMagic]
    exact four
  · rw [sameMagic]
    exact notOurs

end Runs

/-! ## A codec of few messages

On v1, octet for octet as the wire has it, the messages with no payload, of which it
parses `verack`; on v2, the two commands with the short ids 18 and 19. -/

def commandOctets (command : String) : List Octet :=
  let octets := command.toList.map fun char => UInt8.ofNat char.toNat
  octets ++ List.replicate (12 - octets.length) 0

/-- The length of no payload and its checksum. -/
def emptyTail : List Octet := [0, 0, 0, 0, 0x5d, 0xf6, 0xe0, 0xe2]

def verackTail : List Octet := commandOctets "verack" ++ emptyTail

def fewWire : Wire where
  serialize message := message.magic ++ (commandOctets message.command ++ emptyTail)
  parse octets :=
    if octets.length < 24 then .incomplete
    else if (octets.drop 4).take 20 = verackTail then .whole ⟨octets.take 4, "verack", []⟩ 24
    else .refused
  contentsFromMessage command payload := (if command = "ping" then 18 else 19) :: payload
  messageFromContents contents :=
    match contents with
    | [] => none
    | id :: payload =>
        if id = 18 then some ("ping", payload)
        else if id = 19 then some ("pong", payload)
        else none

def IsVerack (message : Message) : Prop :=
  message.magic.length = 4 ∧ message.command = "verack" ∧ message.payload = []

theorem fewWire_prefixCode : PrefixCode fewWire IsVerack where
  whole := by
    rintro ⟨magic, command, payload⟩ rest ⟨four, rfl, rfl⟩
    have tailLength : verackTail.length = 20 := rfl
    have long : ¬ (magic ++ verackTail ++ rest).length < 24 := by
      simp only [List.length_append, four, tailLength]
      omega
    have head : (magic ++ verackTail ++ rest).take 4 = magic := by
      rw [← four, List.append_assoc, List.take_left]
    have tail : ((magic ++ verackTail ++ rest).drop 4).take 20 = verackTail := by
      rw [← four, List.append_assoc, List.drop_left, ← tailLength, List.take_left]
    have whole : (magic ++ verackTail).length = 24 := by
      simp only [List.length_append, four, tailLength]
    have serialized : fewWire.serialize ⟨magic, "verack", []⟩ = magic ++ verackTail := rfl
    rw [serialized, whole]
    simp only [fewWire]
    rw [if_neg long, if_pos tail, head]
  incomplete := by
    rintro ⟨magic, command, payload⟩ octets ⟨four, rfl, rfl⟩ front proper
    have tailLength : verackTail.length = 20 := rfl
    have short : octets.length < 24 := by
      have bound := front.length_le
      have longer : octets.length ≠ (magic ++ verackTail).length := by
        intro same
        exact proper (front.eq_of_length same)
      have serialized : fewWire.serialize ⟨magic, "verack", []⟩ = magic ++ verackTail := rfl
      rw [serialized] at bound
      simp only [List.length_append, four, tailLength] at bound longer
      omega
    simp only [fewWire, short, if_true]
  magic_first := by
    rintro ⟨magic, command, payload⟩ -
    exact List.prefix_append magic _
  magic_length := fun _ isVerack => isVerack.1
  any_magic := fun _ four => ⟨four, rfl, rfl⟩

def regtestMagic : List Octet := [0xfa, 0xbf, 0xb5, 0xda]

/-- Two `verack`s, the first cut inside its command by a wait that ends, the second
glued to it and followed by the close. -/
def veracksArriving : List (Arrival Octet) :=
  [.chunk 0xfa [0xbf, 0xb5, 0xda, 0x76], .quiet,
    .chunk 0x65 (verackTail.drop 2 ++ regtestMagic ++ verackTail), .closed]

theorem nothing_foreign : Foreign regtestMagic [] := by
  intro enough
  simp [regtestMagic] at enough

theorem receive_reassembles_veracks :
    ∃ given later, [⟨regtestMagic, "verack", []⟩, ⟨regtestMagic, "verack", []⟩] = given ++ later ∧
      returnedMessages (run fewWire [.receive, .isConnected, .receive, .receive, .receive]
        (adopt regtestMagic true veracksArriving)).1 = given ∧
      Arrival.octets veracksArriving = serializeAll fewWire given ++
        (run fewWire [.receive, .isConnected, .receive, .receive, .receive]
          (adopt regtestMagic true veracksArriving)).2.ahead ∧
      Counts given (run fewWire [.receive, .isConnected, .receive, .receive, .receive]
        (adopt regtestMagic true veracksArriving)).2 ∧
      NextReceive fewWire later
        (run fewWire [.receive, .isConnected, .receive, .receive, .receive]
          (adopt regtestMagic true veracksArriving)).2 :=
  receive_reassembles fewWire_prefixCode rfl nothing_foreign true
    [⟨regtestMagic, "verack", []⟩, ⟨regtestMagic, "verack", []⟩]
    (by intro message member; simp at member; subst member; exact ⟨⟨rfl, rfl, rfl⟩, rfl⟩)
    veracksArriving (List.append_nil _) [.receive, .isConnected, .receive, .receive, .receive]

end Peer

end BitcoinNodeTests
