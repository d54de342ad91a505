import BitcoinNodeTests.Peer.Handshake
import BitcoinNodeTests.Peer.PacketRun

/-!
# What one side reads of the other's handshake

The octets one side is given are a front of all the other may send: its key, its garbage, the
terminator, its packets.  Each read of the handshake ends at its place in them, or waits short
of it.
-/

set_option autoImplicit false

namespace BitcoinNodeTests

open Foundation

/-! ## Finding the terminator -/

/-- After the garbage the terminator occurs at its own place, and nowhere before. -/
def Unforeseen (terminator garbage : List Octet) : Prop :=
  ∀ before after, garbage ++ terminator = before ++ (terminator ++ after) → after = []

theorem findOctets_least {sub text : List Octet} {before after : List Octet}
    (occurs : text = before ++ (sub ++ after)) :
    ∃ place ≤ before.length, findOctets sub text = some place := by
  induction before generalizing text with
  | nil =>
      subst occurs
      refine ⟨0, le_rfl, ?_⟩
      rw [List.nil_append]
      cases whole : sub ++ after with
      | nil => simp [findOctets, (List.append_eq_nil_iff.mp whole).1]
      | cons octet rest =>
          have starts : sub <+: octet :: rest := ⟨after, whole⟩
          simp [findOctets, starts]
  | cons octet before ih =>
      obtain ⟨place, least, found⟩ := ih rfl
      rw [occurs, List.cons_append, findOctets]
      split
      · exact ⟨0, by omega, rfl⟩
      · refine ⟨place + 1, by simpa using least, ?_⟩
        rw [found]
        rfl

theorem findOctets_some {sub text : List Octet} {place : Nat}
    (found : findOctets sub text = some place) :
    ∃ before after, text = before ++ (sub ++ after) ∧ before.length = place := by
  induction text generalizing place with
  | nil =>
      unfold findOctets at found
      split at found
      · rename_i empty
        cases found
        exact ⟨[], [], by simp [empty], rfl⟩
      · cases found
  | cons octet rest ih =>
      unfold findOctets at found
      split at found
      · rename_i starts
        cases found
        obtain ⟨after, whole⟩ := List.isPrefixOf_iff_prefix.mp starts
        exact ⟨[], after, whole.symm, rfl⟩
      · obtain ⟨later, foundLater, rfl⟩ := Option.map_eq_some_iff.mp found
        obtain ⟨before, after, whole, size⟩ := ih foundLater
        exact ⟨octet :: before, after, by rw [whole, List.cons_append], by simp [size]⟩

namespace Peer

/-- Of the garbage, the terminator and more, the garbage is found once the terminator is whole,
and more is read until then. -/
theorem garbageReader_verdict {terminator garbage held unsent rest : List Octet}
    (bound : garbage.length < MAX_GARBAGE_LEN + 1) (unforeseen : Unforeseen terminator garbage)
    (stream : held ++ unsent = garbage ++ (terminator ++ rest)) :
    garbageReader terminator held =
      if garbage.length + terminator.length ≤ held.length then
        .done garbage (held.drop (garbage.length + terminator.length))
      else .more := by
  have atPlace {text more : List Octet} {place : Nat}
      (front : text ++ more = garbage ++ (terminator ++ rest))
      (found : findOctets terminator text = some place) (most : place ≤ garbage.length) :
      place = garbage.length := by
    obtain ⟨before, after, rfl, rfl⟩ := findOctets_some found
    have first : before ++ terminator <+: garbage ++ terminator := by
      refine @List.prefix_of_prefix_length_le _ _ _ (garbage ++ (terminator ++ rest))
        ⟨after ++ more, ?_⟩ ⟨rest, by simp⟩ (by simpa using most)
      rw [← front]
      simp
    obtain ⟨last, whole⟩ := first
    have nothing := unforeseen before last (by rw [← whole, List.append_assoc])
    have sizes := congrArg List.length whole
    rw [nothing] at sizes
    simp only [List.length_append, List.length_nil] at sizes
    omega
  unfold garbageReader
  dsimp only
  by_cases whole : garbage.length + terminator.length ≤ held.length
  · rw [if_pos whole]
    obtain ⟨later, rfl⟩ : garbage ++ terminator <+: held := by
      refine @List.prefix_of_prefix_length_le _ _ _ (held ++ unsent) ⟨rest, ?_⟩ ⟨unsent, rfl⟩
        (by simpa using whole)
      rw [stream, List.append_assoc]
    have within : (garbage ++ terminator ++ later).take (MAX_GARBAGE_LEN + terminator.length) =
        garbage ++ (terminator ++ later.take (MAX_GARBAGE_LEN - garbage.length)) := by
      rw [List.append_assoc, List.take_append, List.take_of_length_le (by omega), List.take_append,
        List.take_of_length_le (by omega)]
      congr 3
      omega
    obtain ⟨place, most, found⟩ := findOctets_least within
    have front : (garbage ++ (terminator ++ later.take (MAX_GARBAGE_LEN - garbage.length))) ++
        (later.drop (MAX_GARBAGE_LEN - garbage.length) ++ unsent) =
          garbage ++ (terminator ++ rest) := by
      rw [← stream]
      simp only [List.append_assoc]
      rw [← List.append_assoc (later.take _), List.take_append_drop]
    rw [found]
    rw [within] at found
    rw [atPlace front found most]
    simp
  · rw [if_neg whole]
    have short : held.take (MAX_GARBAGE_LEN + terminator.length) = held :=
      List.take_of_length_le (by omega)
    rw [short]
    cases found : findOctets terminator held with
    | none => simp only [if_neg (show ¬ MAX_GARBAGE_LEN + terminator.length ≤ held.length by omega)]
    | some place =>
        obtain ⟨before, after, isHeld, size⟩ := findOctets_some found
        have sizes := congrArg List.length isHeld
        simp only [List.length_append] at sizes
        have same := atPlace stream found (by omega)
        omega

/-- The first octets of a key that does not begin with v1's header tell so, once they differ. -/
theorem v1VersionReader_verdict {header ell held unsent rest : List Octet}
    (size : header.length ≤ ell.length) (other : ¬ header <+: ell)
    (stream : held ++ unsent = ell ++ rest) :
    v1VersionReader header held = .done false held ∨
      v1VersionReader header held = .more ∧ held.length < header.length := by
  unfold v1VersionReader
  dsimp only
  by_cases front : held.take header.length <+: header
  · have notHeader : held.take header.length ≠ header := by
      intro same
      refine other (@List.prefix_of_prefix_length_le _ _ _ (ell ++ rest) ?_ ⟨rest, rfl⟩ size)
      rw [← same, ← stream]
      exact (List.take_prefix _ held).trans (List.prefix_append held unsent)
    refine .inr ⟨by simp [front, notHeader], ?_⟩
    by_contra enough
    refine notHeader (front.eq_of_length ?_)
    rw [List.length_take]
    omega
  · exact .inl (by simp [front])

end Peer

/-! ## The packets of a handshake -/

theorem encryptionsOf_later {aad : List Octet} (decoys : List Nat) :
    ∃ first rest, encryptionsOf aad decoys = first :: rest ∧ first.aad = aad ∧
      ∀ later ∈ rest, later.aad = [] := by
  induction decoys generalizing aad with
  | nil => exact ⟨_, [], rfl, rfl, by simp⟩
  | cons decoy decoys ih =>
      obtain ⟨first, rest, parts, firstAad, restAad⟩ := @ih []
      refine ⟨_, encryptionsOf [] decoys, rfl, rfl, fun later member => ?_⟩
      rw [parts] at member
      rcases List.mem_cons.mp member with rfl | inRest
      · exact firstAad
      · exact restAad later inRest

/-- The garbage authenticates the first packet of a side and no later one. -/
theorem encryptions_garbageFirst (secrets : Secrets) {said : List Encryption}
    (plain : ∀ encryption ∈ said, encryption.aad = []) :
    GarbageFirst secrets.garbage (secrets.encryptions ++ said) := by
  obtain ⟨first, rest, parts, firstAad, restAad⟩ :=
    @encryptionsOf_later secrets.garbage secrets.decoys
  rw [Secrets.encryptions, parts]
  refine ⟨firstAad, fun later member => ?_⟩
  rcases List.mem_append.mp member with inRest | inSaid
  · exact restAad later inRest
  · exact plain later inSaid

theorem encryptionsOf_encryptable {aad : List Octet} {decoys : List Nat}
    (bound : ∀ decoy ∈ decoys, decoy < MAX_DECOY_LEN) :
    ∀ encryption ∈ encryptionsOf aad decoys, Encryptable encryption := by
  induction decoys generalizing aad with
  | nil => simp [encryptionsOf, Encryptable, LENGTH_LEN]
  | cons decoy decoys ih =>
      intro encryption member
      rcases List.mem_cons.mp member with rfl | later
      · have small := bound decoy List.mem_cons_self
        unfold MAX_DECOY_LEN at small
        simp only [Encryptable, List.length_replicate, LENGTH_LEN]
        omega
      · exact ih (fun other inRest => bound other (List.mem_cons_of_mem _ inRest)) encryption later

/-- The version packet is the first that is no decoy. -/
theorem afterVersion_encryptions (cipher : Cipher) (aad : List Octet) (decoys : List Nat)
    (history : List Encryption) (rest : List Packet) :
    Peer.afterVersion (packetsAfter cipher history (encryptionsOf aad decoys) ++ rest) = rest := by
  induction decoys generalizing aad history with
  | nil => rfl
  | cons decoy decoys ih => exact ih [] _

theorem packetsOctets_append (first second : List Packet) :
    packetsOctets (first ++ second) = packetsOctets first ++ packetsOctets second :=
  List.flatMap_append

namespace Peer

/-! ## Reads of a connection that neither stalls nor ends -/

/-- All the octets that are to arrive do so before the connection pauses, with no answer yet. -/
structure Prompt (peer : Peer) : Prop where
  all : peer.promptAhead = peer.ahead
  pending : peer.pause = .pending

theorem Prompt.consumed {taken : List Octet} {peer reached : Peer} (prompt : Prompt peer)
    (consumed : Consumed taken peer reached) : Prompt reached := by
  refine ⟨@List.append_cancel_left _ taken _ _ ?_, ?_⟩
  · rw [← consumed.prompt_eq, ← consumed.ahead_eq, prompt.all]
  · rw [consumed.pause_eq, prompt.pending]

theorem Prompt.interrupted {taken : List Octet} {peer reached : Peer} {error : Raised}
    (prompt : Prompt peer) (interrupted : Interrupted taken peer reached error) :
    error = .waiting ∧ reached.ahead = reached.buffer := by
  refine ⟨?_, @List.append_cancel_left _ taken _ _ ?_⟩
  · rw [interrupted.error_eq, prompt.pending]
    rfl
  · rw [← interrupted.ahead_eq, ← interrupted.buffer_eq, prompt.all]

/-- A read that takes `taken` off the octets ahead for `value`, or waits for as long as fewer
than `short` are. -/
def Ends {β : Type} (value : β) (taken : List Octet) (short : Nat) (peer : Peer) :
    Except Raised β × Peer → Prop
  | (.ok found, reached) => found = value ∧ Consumed taken peer reached ∧ SameBut peer reached
  | (.error error, reached) =>
      error = .waiting ∧ peer.ahead.length < short ∧ SameBut peer reached

theorem readUntil_ends {β : Type} {reader : Reader Octet β Raised} {value : β}
    {taken : List Octet} {short : Nat} {peer : Peer} (prompt : Prompt peer)
    (verdict : ∀ held, held <+: peer.ahead →
      reader held = .done value (held.drop taken.length) ∧ taken <+: held ∨
        reader held = .more ∧ held.length < short) :
    Ends value taken short peer (readUntil reader peer) := by
  rcases run : readUntil reader peer with ⟨error | found, reached⟩
  · obtain ⟨kept, same, decided⟩ := readUntil_error run
    have front : reached.buffer <+: peer.ahead := ⟨Arrival.octets reached.arrivals, kept⟩
    rcases verdict _ front with ⟨done, -⟩ | ⟨more, few⟩
    · rcases decided with refuse | ⟨more, -⟩
      · rw [done] at refuse
        cases refuse
      · rw [done] at more
        cases more
    · rcases decided with refuse | ⟨-, interrupted⟩
      · rw [more] at refuse
        cases refuse
      · obtain ⟨isWaiting, held⟩ := prompt.interrupted interrupted
        refine ⟨isWaiting, ?_, same⟩
        rw [← kept, held]
        exact few
  · obtain ⟨held, kept, promptly, paused, decided, same⟩ := readUntil_ok run
    rcases verdict held ⟨_, kept⟩ with ⟨done, front⟩ | ⟨more, -⟩
    · rw [done] at decided
      obtain ⟨isFound, rest⟩ := Verdict.done.inj decided
      obtain ⟨later, rfl⟩ := front
      rw [List.drop_left] at rest
      subst rest
      refine ⟨isFound.symm, ⟨?_, ?_, paused⟩, same⟩
      · rw [← kept, List.append_assoc]
        rfl
      · rw [← promptly, List.append_assoc]
        rfl
    · rw [more] at decided
      cases decided

section Reads

variable {peer : Peer} {unsent rest : List Octet}

theorem take_ends {front : List Octet} (prompt : Prompt peer)
    (stream : peer.ahead ++ unsent = front ++ rest) :
    Ends front front front.length peer (take front.length peer) := by
  refine readUntil_ends prompt fun held isHeld => ?_
  unfold takeReader
  by_cases few : held.length < front.length
  · exact .inr ⟨if_pos few, few⟩
  · have starts : front <+: held :=
      @List.prefix_of_prefix_length_le _ _ _ (peer.ahead ++ unsent) ⟨rest, stream.symm⟩
        (isHeld.trans (List.prefix_append _ _)) (by omega)
    have taken : held.take front.length = front := (List.prefix_iff_eq_take.mp starts).symm
    exact .inl ⟨by rw [if_neg few, taken], starts⟩

theorem takeGarbage_ends {terminator garbage : List Octet}
    (bound : garbage.length < MAX_GARBAGE_LEN + 1) (unforeseen : Unforeseen terminator garbage)
    (prompt : Prompt peer) (stream : peer.ahead ++ unsent = garbage ++ (terminator ++ rest)) :
    Ends garbage (garbage ++ terminator) (garbage ++ terminator).length peer
      (takeGarbage terminator peer) := by
  refine readUntil_ends prompt fun held isHeld => ?_
  obtain ⟨later, whole⟩ := isHeld
  have heldStream : held ++ (later ++ unsent) = garbage ++ (terminator ++ rest) := by
    rw [← stream, ← whole, List.append_assoc]
  rw [garbageReader_verdict bound unforeseen heldStream, List.length_append]
  by_cases enough : garbage.length + terminator.length ≤ held.length
  · refine .inl ⟨if_pos enough, ?_⟩
    exact @List.prefix_of_prefix_length_le _ _ _ (held ++ (later ++ unsent))
      ⟨rest, by rw [heldStream, List.append_assoc]⟩ ⟨_, rfl⟩ (by simpa using enough)
  · exact .inr ⟨if_neg enough, by omega⟩

/-- `_opens_with_v1_version` of a key that does not begin with v1's header. -/
theorem opensWithV1Version_ends {wire : Wire} {ell : List Octet}
    (size : (versionHeader wire peer.magic).length ≤ ell.length)
    (other : ¬ versionHeader wire peer.magic <+: ell) (prompt : Prompt peer)
    (stream : peer.ahead ++ unsent = ell ++ rest) :
    Ends false [] ell.length peer (opensWithV1Version wire peer) := by
  refine readUntil_ends prompt fun held isHeld => ?_
  obtain ⟨later, whole⟩ := isHeld
  have heldStream : held ++ (later ++ unsent) = ell ++ rest := by
    rw [← stream, ← whole, List.append_assoc]
  rcases v1VersionReader_verdict size other heldStream with done | ⟨more, few⟩
  · exact .inl ⟨done, List.nil_prefix⟩
  · exact .inr ⟨more, by omega⟩

end Reads

end Peer

end BitcoinNodeTests
