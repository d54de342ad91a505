import BitcoinNodeTests.Peer.Barrier
import BitcoinNodeTests.Peer.Reassembly

/-!
# A codec of the v1 frame

The magic, the command, the length, the checksum and the payload, of the few commands a
handshake and a keepalive need.
-/

set_option autoImplicit false

namespace BitcoinNodeTests

open Foundation

namespace PlainWire

open Peer Link

def commands : List String := ["version", "verack", "ping", "pong"]

def checksum (payload : List Octet) : List Octet :=
  if payload = [] then [0x5d, 0xf6, 0xe0, 0xe2]
  else if payload = nonceOctets 5 then [0x03, 0xb4, 0x4d, 0xdf]
  else if payload = nonceOctets 7 then [0x8c, 0x82, 0x0c, 0x80]
  else [0, 0, 0, 0]

theorem checksum_length (payload : List Octet) : (checksum payload).length = 4 := by
  unfold checksum
  split
  · rfl
  · split
    · rfl
    · split
      · rfl
      · rfl

def lengthField (octets : List Octet) : Nat := ofLittleEndian ((octets.drop 16).take 4)

def wire : Wire where
  serialize message :=
    message.magic ++ (commandOctets message.command ++ (littleEndian 4 message.payload.length ++
      (checksum message.payload ++ message.payload)))
  parse octets :=
    let payload := (octets.drop 24).take (lengthField octets)
    if octets.length < 24 ∨ octets.length < 24 + lengthField octets then .incomplete
    else if checksum payload ≠ (octets.drop 20).take 4 then .refused
    else
      match commands.find? fun command => commandOctets command = (octets.drop 4).take 12 with
      | some command => .whole ⟨octets.take 4, command, payload⟩ (24 + lengthField octets)
      | none => .refused
  contentsFromMessage := fewWire.contentsFromMessage
  messageFromContents := fewWire.messageFromContents

structure Valid (message : Message) : Prop where
  magic : message.magic.length = 4
  command : message.command ∈ commands
  payload : message.payload.length < 256 ^ 4

theorem find_command {command : String} (known : command ∈ commands) :
    (commandOctets command).length = 12 ∧
      commands.find? (fun other => commandOctets other = commandOctets command) = some command := by
  simp only [commands, List.mem_cons, List.not_mem_nil, or_false] at known
  rcases known with rfl | rfl | rfl | rfl
  · exact ⟨rfl, rfl⟩
  · exact ⟨rfl, rfl⟩
  · exact ⟨rfl, rfl⟩
  · exact ⟨rfl, rfl⟩

theorem field_at {before field after : List Octet} {place size : Nat}
    (isPlace : before.length = place) (isSize : field.length = size) :
    ((before ++ (field ++ after)).drop place).take size = field := by
  rw [← isPlace, ← isSize, List.drop_left, List.take_left]

theorem serialize_length {message : Message} (valid : Valid message) :
    (wire.serialize message).length = 24 + message.payload.length := by
  have four : (littleEndian 4 message.payload.length).length = 4 := rfl
  simp only [wire, List.length_append, valid.magic, (find_command valid.command).1, four,
    checksum_length]
  omega

theorem lengthField_serialize {message : Message} (valid : Valid message) (rest : List Octet) :
    lengthField (wire.serialize message ++ rest) = message.payload.length := by
  have front : (message.magic ++ commandOctets message.command).length = 16 := by
    rw [List.length_append, valid.magic, (find_command valid.command).1]
  have field := @field_at _ (littleEndian 4 message.payload.length)
    (checksum message.payload ++ message.payload ++ rest) _ 4 front rfl
  have same : wire.serialize message ++ rest =
      message.magic ++ commandOctets message.command ++ (littleEndian 4 message.payload.length ++
        (checksum message.payload ++ message.payload ++ rest)) := by
    simp only [wire, List.append_assoc]
  rw [lengthField, same, field, ofLittleEndian_littleEndian, Nat.mod_eq_of_lt valid.payload]

theorem parse_serialize {message : Message} (valid : Valid message) (rest : List Octet) :
    wire.parse (wire.serialize message ++ rest) =
      .whole message (wire.serialize message).length := by
  obtain ⟨twelve, found⟩ := find_command valid.command
  have isLength := lengthField_serialize valid rest
  have long := serialize_length valid
  have whole : wire.serialize message ++ rest =
      message.magic ++ (commandOctets message.command ++
        (littleEndian 4 message.payload.length ++ (checksum message.payload ++
          (message.payload ++ rest)))) := by
    simp only [wire, List.append_assoc]
  have magic : (wire.serialize message ++ rest).take 4 = message.magic := by
    rw [whole, ← valid.magic, List.take_left]
  have command : ((wire.serialize message ++ rest).drop 4).take 12 =
      commandOctets message.command := by
    rw [whole]
    exact field_at valid.magic twelve
  have sum : ((wire.serialize message ++ rest).drop 20).take 4 = checksum message.payload := by
    rw [whole, ← List.append_assoc message.magic, ← List.append_assoc (_ ++ _)]
    refine field_at ?_ (checksum_length _)
    rw [List.length_append, List.length_append, valid.magic, twelve]
    rfl
  have payload : ((wire.serialize message ++ rest).drop 24).take message.payload.length =
      message.payload := by
    rw [whole, ← List.append_assoc message.magic, ← List.append_assoc (_ ++ _),
      ← List.append_assoc (_ ++ _)]
    refine field_at ?_ rfl
    rw [List.length_append, List.length_append, List.length_append, valid.magic, twelve,
      checksum_length]
    rfl
  have enough : ¬ ((wire.serialize message ++ rest).length < 24 ∨
      (wire.serialize message ++ rest).length < 24 + message.payload.length) := by
    rw [List.length_append, long]
    omega
  show (if (wire.serialize message ++ rest).length < 24 ∨ (wire.serialize message ++ rest).length <
    24 + lengthField (wire.serialize message ++ rest) then _ else _) = _
  rw [isLength, if_neg enough, payload, sum, if_neg (not_not_intro rfl), command, found, magic, long]

/-- A front of a frame is too short for its header, or for the length the header gives. -/
theorem parse_front {message : Message} (valid : Valid message) {octets : List Octet}
    (front : octets <+: wire.serialize message) (proper : octets ≠ wire.serialize message) :
    wire.parse octets = .incomplete := by
  have short : octets.length < 24 + message.payload.length := by
    rw [← serialize_length valid]
    exact lt_of_le_of_ne front.length_le fun same => proper (front.eq_of_length same)
  have fewer : octets.length < 24 ∨ octets.length < 24 + lengthField octets := by
    by_cases header : octets.length < 24
    · exact .inl header
    · have isLength := lengthField_serialize valid []
      obtain ⟨rest, whole⟩ := front
      rw [List.append_nil, ← whole, lengthField, List.drop_append_of_le_length (by omega),
        List.take_append_of_le_length (by rw [List.length_drop]; omega)] at isLength
      rw [lengthField, isLength]
      exact .inr short
  exact if_pos fewer

theorem wire_prefixCode : PrefixCode wire Valid where
  whole _ rest valid := parse_serialize valid rest
  incomplete _ _ valid front proper := parse_front valid front proper
  magic_first message _ := List.prefix_append message.magic _
  magic_length _ valid := valid.magic
  any_magic _ four := ⟨four, List.mem_cons_of_mem _ List.mem_cons_self, Nat.pos_of_neZero _⟩

end PlainWire

end BitcoinNodeTests
