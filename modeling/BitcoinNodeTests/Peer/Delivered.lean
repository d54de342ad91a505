import BitcoinNodeTests.Peer.Reassembly

/-!
# Messages that have arrived

Where a message stands whole in the octets that arrive before the connection pauses, the next
`receive` returns it, whatever pauses the connection behind it.
-/

set_option autoImplicit false

namespace BitcoinNodeTests

open Foundation

namespace Peer

theorem readUntil_same {β : Type} (reader : Reader Octet β Raised) (peer : Peer) :
    SameBut peer (readUntil reader peer).2 := by
  unfold readUntil
  dsimp only
  split
  · rfl
  · rfl
  · rfl

/-- A reader that is done once it holds `taken`, and needs more until then, is done where
`taken` has arrived. -/
theorem readUntil_front {β : Type} {reader : Reader Octet β Raised} {value : β} {peer : Peer}
    {taken tail : List Octet} (whole : peer.promptAhead = taken ++ tail)
    (verdict : ∀ held, held <+: peer.promptAhead → reader held =
      if taken.length ≤ held.length then .done value (held.drop taken.length) else .more) :
    ∃ reached, readUntil reader peer = (.ok value, reached) ∧ Consumed taken peer reached ∧
      SameBut peer reached := by
  rcases run : readUntil reader peer with ⟨error | found, reached⟩
  · obtain ⟨-, -, refuse | ⟨more, interrupted⟩⟩ := readUntil_error run
    · have consumed := readUntil_refused run (by rw [refuse]; nofun)
      have isFront : reached.buffer <+: peer.promptAhead := ⟨_, consumed.prompt_eq.symm⟩
      rw [verdict _ isFront] at refuse
      split at refuse
      · cases refuse
      · cases refuse
    · have isBuffer : peer.promptAhead = reached.buffer := interrupted.buffer_eq
      rw [verdict _ (by rw [isBuffer]), if_pos] at more
      · cases more
      · rw [← isBuffer, whole, List.length_append]
        omega
  · obtain ⟨held, kept, promptly, paused, done, same⟩ := readUntil_ok run
    have isFront : held <+: peer.promptAhead := ⟨_, promptly⟩
    rw [verdict held isFront] at done
    split at done
    · rename_i enough
      obtain ⟨rfl, rest⟩ := Verdict.done.inj done
      have starts : taken <+: held :=
        List.prefix_of_prefix_length_le ⟨tail, whole.symm⟩ isFront enough
      obtain ⟨later, rfl⟩ := starts
      rw [List.drop_left] at rest
      refine ⟨reached, rfl, ⟨?_, ?_, paused⟩, same⟩
      · rw [← kept, List.append_assoc, rest]
        rfl
      · rw [← promptly, List.append_assoc, rest]
        rfl
    · cases done

/-- What was decided was decided before anything that arrives later. -/
theorem readUntil_append {β : Type} {reader : Reader Octet β Raised} {value : β}
    {peer reached : Peer} (run : readUntil reader peer = (.ok value, reached))
    (later : List (Arrival Octet)) :
    readUntil reader { peer with arrivals := peer.arrivals ++ later } =
      (.ok value, { reached with arrivals := reached.arrivals ++ later }) := by
  unfold readUntil at run
  dsimp only at run
  rcases result : await (fun _ => RECV_SIZE) reader peer.buffer peer.arrivals with
    ⟨outcome, held, arrivals⟩
  rw [result] at run
  cases outcome with
  | returned found =>
      obtain ⟨rfl, rfl⟩ : found = value ∧
          { peer with buffer := held, arrivals := arrivals } = reached := by simpa using run
      have whole := @await_append _ _ _ (fun _ => RECV_SIZE) reader peer.buffer peer.arrivals
        (by rw [result]; nofun) later
      simp only [readUntil, whole, result]
  | refused error => simp at run
  | interrupted why => simp at run

section Plain

variable {wire : Wire} {valid : Message → Prop} {peer : Peer}

/-- A message that has arrived whole is returned, counted and alone consumed. -/
theorem receive_delivers (code : PrefixCode wire valid) {message : Message}
    (isValid : valid message) (under : message.magic = peer.magic) (plain : peer.cipher = none)
    {tail : List Octet} (whole : peer.promptAhead = wire.serialize message ++ tail) :
    ∃ read, receive wire peer = (.ok message, count message read) ∧
      Consumed (wire.serialize message) peer read ∧ SameBut peer read := by
  have verdict (held : List Octet) (isFront : held <+: peer.promptAhead) :
      messageReader wire peer.magic held =
        if (wire.serialize message).length ≤ held.length then
          .done message (held.drop (wire.serialize message).length)
        else .more := by
    have front : wire.serialize message <+: peer.promptAhead := ⟨tail, whole.symm⟩
    split
    · rename_i enough
      obtain ⟨left, rfl⟩ := List.prefix_of_prefix_length_le front isFront enough
      rw [messageReader_whole code isValid under, List.drop_left]
    · rename_i short
      refine messageReader_unfinished code isValid under
        (List.prefix_of_prefix_length_le isFront front (by omega)) fun same => ?_
      rw [same] at short
      exact short le_rfl
  obtain ⟨read, run, consumed, same⟩ := readUntil_front whole verdict
  exact ⟨read, by rw [receive_plain plain, run], consumed, same⟩

theorem run_delivers (code : PrefixCode wire valid) (messages : List Message) :
    ∀ {peer : Peer}, peer.cipher = none →
      (∀ message ∈ messages, valid message ∧ message.magic = peer.magic) →
      serializeAll wire messages <+: peer.promptAhead →
      returnedMessages (run wire (List.replicate messages.length .receive) peer).1 = messages := by
  induction messages with
  | nil => exact fun _ _ _ => rfl
  | cons message rest ih =>
      intro peer plain under arrived
      obtain ⟨isValid, sameMagic⟩ := under message List.mem_cons_self
      obtain ⟨tail, whole⟩ := arrived
      rw [serializeAll, List.flatMap_cons, List.append_assoc] at whole
      obtain ⟨read, run, consumed, same⟩ :=
        receive_delivers code isValid sameMagic plain whole.symm
      have rests : read.promptAhead = serializeAll wire rest ++ tail := by
        refine @List.append_cancel_left _ (wire.serialize message) _ _ ?_
        rw [← consumed.prompt_eq, ← whole]
        rfl
      have returned := @ih (count message read) (by rw [same]; exact plain)
        (fun other member => by
          rw [same]
          exact under other (List.mem_cons_of_mem _ member))
        ⟨tail, rests.symm⟩
      have performed : perform wire .receive peer = (.returned message, count message read) := by
        rw [perform, run]
      rw [List.length_cons, List.replicate_succ, returnedMessages_run_cons, performed, returned]
      rfl

end Plain

end Peer

end BitcoinNodeTests
