import BitcoinNodeTests.Foundation.Occurrence
import BitcoinNodeTests.Peer.Opening

/-!
# The garbage before the terminator

`_take_garbage` searches the octets it holds again after every chunk, in a window as long as
the longest garbage and the terminator.  What a window holds of the stream decides it, however
the stream was cut and wherever the buffer ended.
-/

set_option autoImplicit false

namespace BitcoinNodeTests

open Foundation

theorem findOctets_eq_some_iff {sub text : List Octet} {place : Nat} :
    findOctets sub text = some place ↔ FirstAt sub text place := by
  have firstAt {place : Nat} (found : findOctets sub text = some place) :
      FirstAt sub text place := by
    obtain ⟨before, after, rfl, rfl⟩ := findOctets_some found
    refine ⟨?_, fun earlier isEarlier occurs => ?_⟩
    · rw [OccursAt, List.drop_left]
      exact List.prefix_append sub after
    · obtain ⟨rest, whole⟩ := occurs
      have inside : earlier ≤ (before ++ (sub ++ after)).length := by
        rw [List.length_append]
        omega
      obtain ⟨place, least, foundEarlier⟩ := @findOctets_least sub (before ++ (sub ++ after))
        ((before ++ (sub ++ after)).take earlier) rest
        (by rw [whole, List.take_append_drop])
      rw [found, Option.some.injEq] at foundEarlier
      rw [List.length_take] at least
      omega
  refine ⟨firstAt, fun isFirst => ?_⟩
  obtain ⟨rest, whole⟩ := isFirst.occurs
  obtain ⟨least, -, found⟩ := @findOctets_least sub text (text.take place) rest
    (by rw [whole, List.take_append_drop])
  rw [found, (firstAt found).unique isFirst]

theorem findOctets_eq_none_iff {sub text : List Octet} :
    findOctets sub text = none ↔ ∀ place, ¬ OccursAt sub text place := by
  constructor
  · intro missed place occurs
    obtain ⟨least, -, isFirst⟩ := occurs.firstAt
    rw [findOctets_eq_some_iff.mpr isFirst] at missed
    cases missed
  · intro nowhere
    cases found : findOctets sub text with
    | none => rfl
    | some place => exact absurd (findOctets_eq_some_iff.mp found).occurs (nowhere place)

namespace Peer

/-- How many octets `_take_garbage` looks at. -/
def garbageWindow (terminator : List Octet) : Nat := MAX_GARBAGE_LEN + terminator.length

example (terminator : List Octet) (size : terminator.length = 16) :
    garbageWindow terminator = 4111 := by
  rw [garbageWindow, size, MAX_GARBAGE_LEN]

/-- What `_take_garbage` ends with, by where the terminator first occurs in the octets that
arrive before the connection pauses. -/
def GarbageEnds (terminator : List Octet) (peer : Peer) :
    Except Raised (List Octet) × Peer → Prop
  | (.ok garbage, reached) =>
      ∃ place ≤ MAX_GARBAGE_LEN, FirstAt terminator peer.promptAhead place ∧
        garbage = peer.promptAhead.take place ∧
        Consumed (peer.promptAhead.take (place + terminator.length)) peer reached
  | (.error error, reached) =>
      (∀ place, ¬ OccursAt terminator (peer.promptAhead.take (garbageWindow terminator)) place) ∧
        (garbageWindow terminator ≤ peer.promptAhead.length ∧ error = noGarbageTerminator ∧
            Consumed [] peer reached ∨
          peer.promptAhead.length < garbageWindow terminator ∧
            Interrupted [] peer reached error)

section Reader

variable {terminator held : List Octet}

theorem garbageReader_found {place : Nat}
    (found : findOctets terminator (held.take (garbageWindow terminator)) = some place) :
    garbageReader terminator held =
      .done (held.take place) (held.drop (place + terminator.length)) := by
  unfold garbageWindow at found
  simp only [garbageReader, found]

theorem garbageReader_missed
    (missed : findOctets terminator (held.take (garbageWindow terminator)) = none) :
    garbageReader terminator held =
      if garbageWindow terminator ≤ held.length then .refuse noGarbageTerminator else .more := by
  unfold garbageWindow at missed ⊢
  simp only [garbageReader, missed]

end Reader

theorem takeGarbage_garbageEnds (terminator : List Octet) (peer : Peer) :
    GarbageEnds terminator peer (takeGarbage terminator peer) := by
  rcases run : takeGarbage terminator peer with ⟨error | garbage, reached⟩
  · obtain ⟨-, -, decided⟩ := readUntil_error run
    cases found : findOctets terminator (reached.buffer.take (garbageWindow terminator)) with
    | some place =>
        have verdict := garbageReader_found found
        rcases decided with refuse | ⟨more, -⟩
        · rw [verdict] at refuse
          cases refuse
        · rw [verdict] at more
          cases more
    | none =>
        have verdict := garbageReader_missed found
        have nowhere := findOctets_eq_none_iff.mp found
        rw [verdict] at decided
        split at decided
        · rename_i full
          rcases decided with refuse | ⟨more, -⟩
          · cases refuse
            have consumed := readUntil_refused run (by rw [verdict, if_pos full]; nofun)
            have isFront : reached.buffer <+: peer.promptAhead :=
              ⟨Arrival.prompt reached.arrivals, consumed.prompt_eq.symm⟩
            rw [take_of_front isFront full] at nowhere
            exact ⟨nowhere, .inl ⟨full.trans isFront.length_le, rfl, consumed⟩⟩
          · cases more
        · rename_i short
          rcases decided with refuse | ⟨-, interrupted⟩
          · cases refuse
          · have whole : peer.promptAhead = reached.buffer := interrupted.buffer_eq
            rw [← whole] at nowhere short
            exact ⟨nowhere, .inr ⟨Nat.lt_of_not_le short, interrupted⟩⟩
  · obtain ⟨held, kept, promptly, paused, decided, same⟩ := readUntil_ok run
    have isFront : held <+: peer.promptAhead := ⟨_, promptly⟩
    cases found : findOctets terminator (held.take (garbageWindow terminator)) with
    | none =>
        rw [garbageReader_missed found] at decided
        split at decided
        · cases decided
        · cases decided
    | some place =>
        rw [garbageReader_found found] at decided
        obtain ⟨rfl, rest⟩ := Verdict.done.inj decided
        have inWindow := findOctets_eq_some_iff.mp found
        have isFirst := (inWindow.of_front (List.take_prefix _ held)).of_front isFront
        have fits := inWindow.fits
        rw [List.length_take] at fits
        unfold garbageWindow at fits
        refine ⟨place, by omega, isFirst, take_of_front isFront (by omega), ?_, ?_, paused⟩
        · rw [← take_of_front isFront (by omega), ← kept, ahead, ← rest, ← List.append_assoc,
            List.take_append_drop]
        · rw [← take_of_front isFront (by omega), ← promptly, promptAhead, ← rest,
            ← List.append_assoc, List.take_append_drop]

theorem Consumed.ahead_drop {taken : List Octet} {peer reached : Peer}
    (consumed : Consumed taken peer reached) : reached.ahead = peer.ahead.drop taken.length := by
  rw [consumed.ahead_eq, List.drop_left]

theorem Consumed.prompt_drop {taken : List Octet} {peer reached : Peer}
    (consumed : Consumed taken peer reached) :
    reached.promptAhead = peer.promptAhead.drop taken.length := by
  rw [consumed.prompt_eq, List.drop_left]

/-- What the connection brings before it pauses decides the garbage: the octets before the
first terminator, of which none is lost behind it; a refusal that consumes nothing where the
window holds no terminator; and how the connection pauses where that comes first. -/
theorem takeGarbage_decided (terminator : List Octet) (peer : Peer) :
    let stream := peer.promptAhead
    let run := takeGarbage terminator peer
    (∀ place ≤ MAX_GARBAGE_LEN, FirstAt terminator stream place →
      run.1 = .ok (stream.take place) ∧
        run.2.promptAhead = stream.drop (place + terminator.length) ∧
        run.2.ahead = peer.ahead.drop (place + terminator.length)) ∧
    ((∀ place, ¬ OccursAt terminator (stream.take (garbageWindow terminator)) place) →
      (garbageWindow terminator ≤ stream.length →
        run.1 = .error noGarbageTerminator ∧ run.2.promptAhead = stream ∧
          run.2.ahead = peer.ahead) ∧
      (stream.length < garbageWindow terminator →
        run.1 = .error (raisedBy peer.pause) ∧ run.2.buffer = stream ∧
          run.2.ahead = peer.ahead ∧
          (peer.pause = .closed → ∃ text, run.1 = .error (.connectionError text)))) := by
  intro stream run
  have ends : GarbageEnds terminator peer run := takeGarbage_garbageEnds terminator peer
  rcases run with ⟨error | garbage, reached⟩
  · obtain ⟨nowhere, decided⟩ := ends
    refine ⟨fun place bound isFirst => ?_, fun _ => ⟨fun full => ?_, fun short => ?_⟩⟩
    · have fits := isFirst.fits
      refine absurd (isFirst.occurs.in_front (List.take_prefix (garbageWindow terminator) _) ?_)
        (nowhere place)
      rw [List.length_take, garbageWindow]
      omega
    · rcases decided with ⟨_, rfl, consumed⟩ | ⟨short, _⟩
      · exact ⟨rfl, consumed.prompt_drop, consumed.ahead_drop⟩
      · exact absurd full (Nat.not_le.mpr short)
    · rcases decided with ⟨full, _⟩ | ⟨_, interrupted⟩
      · exact absurd full (Nat.not_le.mpr short)
      · obtain rfl := interrupted.error_eq
        refine ⟨rfl, interrupted.buffer_eq.symm, interrupted.ahead_eq.symm, fun closed => ?_⟩
        rw [closed]
        exact ⟨_, rfl⟩
  · obtain ⟨place, bound, isFirst, rfl, consumed⟩ := ends
    have fits := isFirst.fits
    have size : (peer.promptAhead.take (place + terminator.length)).length =
        place + terminator.length := by
      rw [List.length_take]
      omega
    refine ⟨fun other _ otherFirst => ?_, fun nowhere => ?_⟩
    · obtain rfl := isFirst.unique otherFirst
      exact ⟨rfl, size ▸ consumed.prompt_drop, size ▸ consumed.ahead_drop⟩
    · refine absurd (isFirst.occurs.in_front (List.take_prefix (garbageWindow terminator) _) ?_)
        (nowhere place)
      rw [List.length_take, garbageWindow]
      omega

end Peer

end BitcoinNodeTests
