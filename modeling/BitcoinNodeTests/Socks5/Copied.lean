import BitcoinNodeTests.Socks5.Relay

/-!
# What forwarding copies

What was read of one end is what was sent to the other, then what a `sendall` has left: `Copies`
holds between any two operations, whatever arrives meanwhile.
-/

set_option autoImplicit false

namespace BitcoinNodeTests.Socks5

open Foundation

@[simp] theorem End.other_other (end_ : End) : end_.other.other = end_ := by
  cases end_ with
  | near => rfl
  | far => rfl

theorem End.other_ne (end_ : End) : end_.other ≠ end_ := by
  cases end_ with
  | near => nofun
  | far => nofun

theorem End.eq_or_other (end_ other : End) : other = end_ ∨ other = end_.other := by
  cases end_ with
  | near =>
      cases other with
      | near => exact .inl rfl
      | far => exact .inr rfl
  | far =>
      cases other with
      | near => exact .inr rfl
      | far => exact .inl rfl

/-- What is still to be sent to an end, or was when its `sendall` failed. -/
def Place.unsent (end_ : End) : Place → List Octet
  | .sending to_ data _ => if to_ = end_ then data else []
  | .ended (.sendFailed to_ data _) => if to_ = end_ then data else []
  | _ => []

namespace Relay

@[simp] theorem unsent_turn (end_ : End) (readable : List End) :
    (turn readable).unsent end_ = [] := by
  cases readable with
  | nil => rfl
  | cons first rest => rfl

/-! ## What a step does -/

/-- Each way the loop, or what arrives, takes a relay to another. -/
inductive Stepped (relay : Relay) : Event → Relay → Prop where
  | arrives (end_ : End) (arrival : Arrival Octet) :
      Stepped relay (.arrives end_ arrival) (relay.change end_ { relay.sockets end_ with
        history := (relay.sockets end_).history ++ [arrival]
        arrivals := (relay.sockets end_).arrivals ++ [arrival] })
  | selects (readable : End → Bool) (isPlace : relay.place = .selecting) :
      Stepped relay (.selects readable)
        { relay with place := turn ([.near, .far].filter readable) }
  | reads {end_ : End} {readable : List End} {data : List Octet} {later : List (Arrival Octet)}
      (isPlace : relay.place = .reading end_ readable)
      (run : Arrival.recv CHUNK (relay.sockets end_).arrivals = (.octets data, later)) :
      Stepped relay .receives { relay.change end_ { relay.sockets end_ with
        arrivals := later
        read := (relay.sockets end_).read ++ data } with
        place := .sending end_.other data readable }
  | meets {end_ : End} {readable : List End} {why : Interruption} {later : List (Arrival Octet)}
      {stop : Stop} (isPlace : relay.place = .reading end_ readable)
      (run : Arrival.recv CHUNK (relay.sockets end_).arrivals = (.interrupted why, later))
      (answered : why ≠ .pending)
      (isStop : stop = .closed end_ ∨ ∃ error, stop = .readFailed end_ error) :
      Stepped relay .receives { relay.change end_ { relay.sockets end_ with arrivals := later } with
        place := .ended stop }
  | sends {end_ : End} {data : List Octet} {readable : List End} (count : Nat)
      (isPlace : relay.place = .sending end_ data readable) :
      Stepped relay (.sends count) { relay.change end_ { relay.sockets end_ with
        sent := (relay.sockets end_).sent ++ data.take count } with
        place := if data.drop count = [] then turn readable
          else .sending end_ (data.drop count) readable }
  | readFails {end_ : End} {readable : List End} (error : SocketError)
      (isPlace : relay.place = .reading end_ readable) :
      Stepped relay (.fails error) { relay with place := .ended (.readFailed end_ error) }
  | sendFails {end_ : End} {data : List Octet} {readable : List End} (error : SocketError)
      (isPlace : relay.place = .sending end_ data readable) :
      Stepped relay (.fails error) { relay with place := .ended (.sendFailed end_ data error) }

theorem receive_stepped {end_ : End} {readable : List End} {relay reached : Relay}
    (isPlace : relay.place = .reading end_ readable)
    (moved : relay.receive end_ readable = some reached) : Stepped relay .receives reached := by
  unfold receive at moved
  dsimp only at moved
  rcases run : Arrival.recv CHUNK (relay.sockets end_).arrivals with ⟨data | why, later⟩
  · rw [run] at moved
    cases moved
    exact .reads isPlace run
  · rw [run] at moved
    cases why with
    | pending => cases moved
    | quiet =>
        cases moved
        exact .meets isPlace run nofun (.inr ⟨_, rfl⟩)
    | closed =>
        cases moved
        exact .meets isPlace run nofun (.inl rfl)
    | reset =>
        cases moved
        exact .meets isPlace run nofun (.inr ⟨_, rfl⟩)

theorem step_stepped {event : Event} {relay reached : Relay}
    (moved : step event relay = some reached) : Stepped relay event reached := by
  unfold step at moved
  dsimp only at moved
  split at moved
  · cases moved
    exact .arrives _ _
  · rename_i isPlace
    cases moved
    exact .selects _ isPlace
  · rename_i isPlace
    exact receive_stepped isPlace moved
  · rename_i isPlace
    unfold send at moved
    dsimp only at moved
    split at moved
    · cases moved
      exact .sends _ isPlace
    · cases moved
  · rename_i isPlace
    cases moved
    exact .readFails _ isPlace
  · rename_i isPlace
    cases moved
    exact .sendFails _ isPlace
  · cases moved

/-! ## What every step keeps -/

/-- All an end sent is what was read of it and what is yet to be read, and what was read of it
is what was sent to the other end and what is left to send. -/
structure Copies (relay : Relay) : Prop where
  arrived : ∀ end_, Arrival.octets (relay.sockets end_).history =
    (relay.sockets end_).read ++ Arrival.octets (relay.sockets end_).arrivals
  closed : ∀ end_, .closed ∈ (relay.sockets end_).history ↔ .closed ∈ (relay.sockets end_).arrivals
  passed : ∀ end_, (relay.sockets end_).read =
    (relay.sockets end_.other).sent ++ relay.place.unsent end_.other

theorem copies_start : Copies start where
  arrived _ := rfl
  closed _ := Iff.rfl
  passed _ := rfl

section Change

variable {relay : Relay} {end_ : End} {socket : Socket}

theorem change_same : (relay.change end_ socket).sockets end_ = socket := Function.update_self ..

theorem change_other {other : End} (differs : other ≠ end_) :
    (relay.change end_ socket).sockets other = relay.sockets other :=
  Function.update_of_ne differs ..

/-- What a change of one socket does not touch is untouched at both ends. -/
theorem change_view {β : Type} (view : Socket → β) (same : view socket = view (relay.sockets end_))
    (other : End) : view ((relay.change end_ socket).sockets other) = view (relay.sockets other) := by
  by_cases isEnd : other = end_
  · rw [isEnd, change_same, same]
  · rw [change_other isEnd]

end Change

theorem arrives_copies {relay : Relay} (copies : Copies relay) (end_ : End)
    (arrival : Arrival Octet) :
    Copies (relay.change end_ { relay.sockets end_ with
      history := (relay.sockets end_).history ++ [arrival]
      arrivals := (relay.sockets end_).arrivals ++ [arrival] }) := by
  obtain ⟨arrived, closed, passed⟩ := copies
  refine ⟨fun other => ?_, fun other => ?_, fun other => ?_⟩
  · by_cases isEnd : other = end_
    · rw [isEnd, change_same]
      simp only [Arrival.octets_concat, closed end_, arrived end_, List.append_assoc]
    · rw [change_other isEnd, arrived other]
  · by_cases isEnd : other = end_
    · rw [isEnd, change_same]
      simp only [List.mem_append, closed end_]
    · rw [change_other isEnd]
      exact closed other
  · rw [change_view Socket.read, change_view Socket.sent]
    · exact passed other
    · rfl
    · rfl

/-- A read takes octets off what has arrived, and all of them are to be sent to the other end. -/
theorem reads_copies {relay : Relay} {end_ : End} {readable : List End} {data : List Octet}
    {later : List (Arrival Octet)} (copies : Copies relay)
    (isPlace : relay.place = .reading end_ readable)
    (run : Arrival.recv CHUNK (relay.sockets end_).arrivals = (.octets data, later)) :
    Copies { relay.change end_ { relay.sockets end_ with
      arrivals := later
      read := (relay.sockets end_).read ++ data } with
      place := .sending end_.other data readable } := by
  obtain ⟨arrived, closed, passed⟩ := copies
  refine ⟨fun other => ?_, fun other => ?_, fun other => ?_⟩
  · by_cases isEnd : other = end_
    · rw [isEnd]
      simp only [change_same, arrived end_, (Arrival.recv_octets run).1, List.append_assoc]
    · simp only [change_other isEnd, arrived other]
  · by_cases isEnd : other = end_
    · rw [isEnd]
      simp only [change_same, closed end_, Arrival.recv_closed run]
    · simp only [change_other isEnd, closed other]
  · have before := passed other
    rw [isPlace] at before
    rw [change_view Socket.sent]
    · by_cases isEnd : other = end_
      · subst isEnd
        simp only [change_same, before, Place.unsent, if_true, List.append_nil]
      · obtain rfl := (End.eq_or_other end_ other).resolve_left isEnd
        simp only [change_other isEnd, before, Place.unsent, End.other_other,
          if_neg (End.other_ne end_)]
    · rfl

theorem meets_copies {relay : Relay} {end_ : End} {readable : List End} {why : Interruption}
    {later : List (Arrival Octet)} {stop : Stop} (copies : Copies relay)
    (isPlace : relay.place = .reading end_ readable)
    (run : Arrival.recv CHUNK (relay.sockets end_).arrivals = (.interrupted why, later))
    (isStop : stop = .closed end_ ∨ ∃ error, stop = .readFailed end_ error) :
    Copies { relay.change end_ { relay.sockets end_ with arrivals := later } with
      place := .ended stop } := by
  obtain ⟨arrived, closed, passed⟩ := copies
  refine ⟨fun other => ?_, fun other => ?_, fun other => ?_⟩
  · by_cases isEnd : other = end_
    · rw [isEnd]
      simp only [change_same, arrived end_, (Arrival.recv_interrupted run).1]
    · simp only [change_other isEnd, arrived other]
  · by_cases isEnd : other = end_
    · rw [isEnd]
      simp only [change_same, closed end_, Arrival.recv_closed run]
    · simp only [change_other isEnd, closed other]
  · have unsent : (Place.ended stop).unsent other.other = [] := by
      rcases isStop with rfl | ⟨error, rfl⟩
      · rfl
      · rfl
    have before := passed other
    rw [isPlace] at before
    rw [unsent, change_view Socket.read, change_view Socket.sent]
    · exact before
    · rfl
    · rfl

/-- A part of a `sendall` moves octets from those left to those sent. -/
theorem sends_copies {relay : Relay} {end_ : End} {data : List Octet} {readable : List End}
    (copies : Copies relay) (isPlace : relay.place = .sending end_ data readable) (count : Nat) :
    Copies { relay.change end_ { relay.sockets end_ with
      sent := (relay.sockets end_).sent ++ data.take count } with
      place := if data.drop count = [] then turn readable
        else .sending end_ (data.drop count) readable } := by
  obtain ⟨arrived, closed, passed⟩ := copies
  refine ⟨fun other => ?_, fun other => ?_, fun other => ?_⟩
  · rw [change_view Socket.history, change_view Socket.read, change_view Socket.arrivals]
    · exact arrived other
    · rfl
    · rfl
    · rfl
  · rw [change_view Socket.history, change_view Socket.arrivals]
    · exact closed other
    · rfl
    · rfl
  · have left (to_ : End) : Place.unsent to_ (if data.drop count = [] then turn readable
        else .sending end_ (data.drop count) readable) =
          if end_ = to_ then data.drop count else [] := by
      split
      · rename_i all
        rw [unsent_turn, all, ite_self]
      · rfl
    have before := passed other
    rw [isPlace] at before
    rw [left, change_view Socket.read, before]
    · by_cases isEnd : other.other = end_
      · simp only [isEnd, change_same, Place.unsent, if_true, List.append_assoc,
          List.take_append_drop]
      · simp only [change_other isEnd, Place.unsent, if_neg (Ne.symm isEnd)]
    · rfl

theorem step_copies {event : Event} {relay reached : Relay} (copies : Copies relay)
    (moved : step event relay = some reached) : Copies reached := by
  cases step_stepped moved with
  | arrives end_ arrival => exact arrives_copies copies end_ arrival
  | selects readable isPlace =>
      refine ⟨copies.arrived, copies.closed, fun other => ?_⟩
      rw [copies.passed other, isPlace, unsent_turn]
      rfl
  | reads isPlace run => exact reads_copies copies isPlace run
  | meets isPlace run answered isStop => exact meets_copies copies isPlace run isStop
  | sends count isPlace => exact sends_copies copies isPlace count
  | readFails error isPlace =>
      refine ⟨copies.arrived, copies.closed, fun other => ?_⟩
      rw [copies.passed other, isPlace]
      rfl
  | sendFails error isPlace =>
      refine ⟨copies.arrived, copies.closed, fun other => ?_⟩
      rw [copies.passed other, isPlace]
      rfl

/-! ## What ends the loop -/

def Ended (relay : Relay) : Prop := ∃ stop, relay.place = .ended stop

/-- The operation is a read that meets an end's close, or a read or a `sendall` that fails. -/
def Meets (event : Event) (relay : Relay) : Prop :=
  match event, relay.place with
  | .receives, .reading end_ _ => ∃ why later,
      Arrival.recv CHUNK (relay.sockets end_).arrivals = (.interrupted why, later)
  | .fails _, _ => True
  | _, _ => False

theorem step_ended_iff {event : Event} {relay reached : Relay}
    (moved : step event relay = some reached) :
    reached.Ended ↔ relay.Ended ∨ Meets event relay := by
  unfold Ended
  cases step_stepped moved with
  | arrives end_ arrival => simp [Meets, change]
  | selects readable isPlace =>
      cases ends : [End.near, .far].filter readable with
      | nil => simp [Meets, isPlace, turn]
      | cons first rest => simp [Meets, isPlace, turn]
  | reads isPlace run => simp [Meets, isPlace, run]
  | meets isPlace run answered isStop => simp [Meets, isPlace, run]
  | @sends end_ data readable count isPlace =>
      by_cases all : data.drop count = []
      · cases readable with
        | nil => simp [Meets, isPlace, all, turn]
        | cons first rest => simp [Meets, isPlace, all, turn]
      · simp [Meets, isPlace, all]
  | readFails error isPlace => simp [Meets]
  | sendFails error isPlace => simp [Meets]

theorem steps_ended_iff (events : List Event) : ∀ {relay reached : Relay},
    steps step events relay = some reached →
      (reached.Ended ↔ relay.Ended ∨ ∃ before event after middle,
        events = before ++ event :: after ∧ steps step before relay = some middle ∧
          Meets event middle) := by
  induction events with
  | nil =>
      intro relay reached ran
      cases ran
      simp
  | cons event events ih =>
      intro relay reached ran
      obtain ⟨next, moved, rest⟩ := Option.bind_eq_some_iff.mp ran
      rw [ih rest, step_ended_iff moved, or_assoc]
      refine or_congr_right ⟨?_, ?_⟩
      · intro ended
        rcases ended with met | ⟨before, later, after, middle, rfl, reaches, met⟩
        · exact ⟨[], event, events, relay, rfl, rfl, met⟩
        · refine ⟨event :: before, later, after, middle, rfl, ?_, met⟩
          rw [steps, moved]
          exact reaches
      · intro ended
        obtain ⟨before, later, after, middle, split, reaches, met⟩ := ended
        cases before with
        | nil =>
            obtain ⟨rfl, rfl⟩ := List.cons.inj split
            cases reaches
            exact .inl met
        | cons first before =>
            obtain ⟨rfl, rfl⟩ := List.cons.inj split
            rw [steps, moved] at reaches
            exact .inr ⟨before, later, after, middle, rfl, reaches, met⟩

/-- Whatever arrives and whichever ends `select` reports: each end has been sent a front of the
octets the other sent, which is all that was read of it but what a `sendall` has left; once the
loop has ended that is nothing, unless that `sendall` failed; and the loop has ended where a read
met a close, or a read or a `sendall` failed, and nowhere else. -/
theorem forward_copies {events : List Event} {relay : Relay}
    (ran : steps step events start = some relay) :
    (∀ end_, (relay.sockets end_.other).sent <+: Arrival.octets (relay.sockets end_).history) ∧
    (∀ end_, (relay.sockets end_).read =
      (relay.sockets end_.other).sent ++ relay.place.unsent end_.other) ∧
    (∀ stop, relay.place = .ended stop → ∀ end_,
      (relay.sockets end_).read = (relay.sockets end_.other).sent ∨
        ∃ unsent error, stop = .sendFailed end_.other unsent error) ∧
    (relay.Ended ↔ ∃ before event after middle, events = before ++ event :: after ∧
      steps step before start = some middle ∧ Meets event middle) := by
  have copies : Copies relay := steps_keep step_copies copies_start ran
  refine ⟨fun end_ => ?_, copies.passed, fun stop ended end_ => ?_, ?_⟩
  · rw [copies.arrived, copies.passed, List.append_assoc]
    exact List.prefix_append _ _
  · have passed := copies.passed end_
    rw [ended] at passed
    cases stop with
    | closed other => exact .inl (passed.trans (List.append_nil _))
    | readFailed other error => exact .inl (passed.trans (List.append_nil _))
    | sendFailed other unsent error =>
        by_cases isEnd : other = end_.other
        · exact .inr ⟨unsent, error, by rw [isEnd]⟩
        · refine .inl (passed.trans ?_)
          rw [Place.unsent, if_neg isEnd, List.append_nil]
  · rw [steps_ended_iff events ran]
    refine or_iff_right fun ended => ?_
    obtain ⟨stop, impossible⟩ := ended
    cases impossible

/-- Both ends are readable at once, the far one closes behind its octets, and what is read of
the near one meanwhile is cut in two by its `sendall`. -/
def bothWays : List Event :=
  [.arrives .near (.chunk 1 [2, 3]), .arrives .far (.chunk 9 []), .selects fun _ => true,
    .receives, .sends 2, .arrives .far .closed, .sends 5, .receives, .sends 1,
    .selects fun end_ => end_ = .far, .receives]

theorem forward_copies_bothWays :
    ∃ relay, steps step bothWays start = some relay ∧ relay.place = .ended (.closed .far) ∧
      (relay.sockets .far).sent = [1, 2, 3] ∧ (relay.sockets .near).sent = [9] ∧
      (∀ end_, (relay.sockets end_.other).sent <+: Arrival.octets (relay.sockets end_).history) ∧
      ∃ before event after middle, bothWays = before ++ event :: after ∧
        steps step before start = some middle ∧ Meets event middle := by
  have ran : steps step bothWays start = some _ := rfl
  obtain ⟨fronts, _, _, ended⟩ := forward_copies ran
  exact ⟨_, ran, rfl, rfl, rfl, fronts, ended.mp ⟨_, rfl⟩⟩

end Relay

end BitcoinNodeTests.Socks5
