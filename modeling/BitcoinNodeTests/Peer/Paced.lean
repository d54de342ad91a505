import BitcoinNodeTests.Foundation.Follow
import BitcoinNodeTests.Peer.Clocked
import BitcoinNodeTests.Peer.PacketRun

/-!
# A clocked peer follows one that has no clock

Begun before a deadline with a timeout that reaches it, an action on the clocked peer does what it
does on a peer without a clock to which arrives what comes by the deadline.  Where that peer waits
for more the clocked one times out at the deadline, if nothing came after it began; if something
did, the read it is in goes on past the deadline.
-/

set_option autoImplicit false

namespace BitcoinNodeTests

open Foundation

namespace Peer

def recvMore : Action Peer Raised Unit := fun peer =>
  match Arrival.recv RECV_SIZE peer.arrivals with
  | (.octets taken, later) => (.ok (), { peer with buffer := peer.buffer ++ taken, arrivals := later })
  | (.interrupted why, later) => (.error (raisedBy why), { peer with arrivals := later })

theorem readUntil_turn {β : Type} (reader : Reader Octet β Raised) (peer : Peer) :
    readUntil reader peer = match reader peer.buffer with
      | .done value rest => (.ok value, { peer with buffer := rest })
      | .refuse error => (.error error, peer)
      | .more => (recvMore >>= fun _ => readUntil reader) peer := by
  cases verdict : reader peer.buffer with
  | done value rest => rw [readUntil, await_done verdict]
  | refuse error => rw [readUntil, await_refuse verdict]
  | more =>
      dsimp only
      rw [Action.bind_apply, recvMore]
      rcases run : Arrival.recv RECV_SIZE peer.arrivals with ⟨taken | why, later⟩
      · rw [readUntil, await_octets verdict run]
        rfl
      · rw [readUntil, await_interrupted verdict run]

end Peer

namespace Clocked

/-! ## Time passes -/

/-- The read was made between the two times, and answered only what had come. -/
structure Within (first last : Int) (read : Read) : Prop where
  started : first ≤ read.started
  waited : read.started ≤ read.ended
  ended : read.ended ≤ last
  arrived : ∀ time ∈ read.arrived, time ≤ read.ended

/-- Time passed in the reads made meanwhile, and nowhere else. -/
structure Passed (state reached : Clocked) : Prop where
  time : state.time ≤ reached.time
  made : ∃ made, reached.reads = state.reads ++ made ∧
    (∀ read ∈ made, Within state.time reached.time read) ∧
    (state.time < reached.time → ∃ read ∈ made, read.ended = reached.time)

theorem Within.mono {first last earlier later : Int} {read : Read} (within : Within first last read)
    (sooner : earlier ≤ first) (longer : last ≤ later) : Within earlier later read :=
  ⟨sooner.trans within.started, within.waited, within.ended.trans longer, within.arrived⟩

theorem Passed.trans {state middle reached : Clocked} (before : Passed state middle)
    (after : Passed middle reached) : Passed state reached := by
  obtain ⟨made, isMade, within, last⟩ := before.made
  obtain ⟨more, isMore, withinMore, lastMore⟩ := after.made
  refine ⟨before.time.trans after.time, made ++ more, ?_, fun read member => ?_, fun passes => ?_⟩
  · rw [isMore, isMade, List.append_assoc]
  · rcases List.mem_append.mp member with member | member
    · exact (within read member).mono le_rfl after.time
    · exact (withinMore read member).mono before.time le_rfl
  · rcases after.time.lt_or_eq with later | same
    · obtain ⟨read, member, ended⟩ := lastMore later
      exact ⟨read, List.mem_append_right _ member, ended⟩
    · obtain ⟨read, member, ended⟩ := last (by omega)
      exact ⟨read, List.mem_append_left _ member, ended.trans same⟩

theorem Passed.still {state reached : Clocked} (time : reached.time = state.time)
    (reads : reached.reads = state.reads) : Passed state reached := by
  refine ⟨time.ge, [], ?_, ?_, fun passes => ?_⟩
  · rw [reads, List.append_nil]
  · nofun
  · omega

instance : IsPreorder Clocked Passed where
  refl _ := .still rfl rfl
  trans _ _ _ := Passed.trans

theorem passed_endRead {ended : Int} {arrived : Option Int} {later : List Due} {state : Clocked}
    (waited : state.time ≤ ended) (had : ∀ time ∈ arrived, time ≤ ended) :
    Passed state (endRead ended arrived later state) := by
  refine ⟨waited, _, rfl, ?_, fun _ => ⟨_, List.mem_singleton_self _, rfl⟩⟩
  intro read member
  rw [List.mem_singleton.mp member]
  exact ⟨le_rfl, waited, le_rfl, had⟩

/-- An ending that took time only to read, and is no wait for more. -/
def EndsFrom {α : Type} (state : Clocked) (ending : Except Raised α × Clocked) : Prop :=
  Passed state ending.2 ∧ ending.1 ≠ .error .waiting

def Timely {α : Type} (action : Action Clocked Raised α) : Prop :=
  ∀ state, EndsFrom state (action state)

section Timely

variable {α β : Type}

theorem Timely.of_run {action : Action Clocked Raised α} {state reached : Clocked}
    {result : Except Raised α} (timely : Timely action) (run : action state = (result, reached)) :
    Passed state reached ∧ result ≠ .error .waiting := by
  have ended := timely state
  rwa [run] at ended

theorem Timely.bind_from {first : Action Clocked Raised α} {next : α → Action Clocked Raised β}
    {state : Clocked} (timely : Timely first)
    (after : ∀ value reached, first state = (.ok value, reached) →
      EndsFrom reached (next value reached)) : EndsFrom state ((first >>= next) state) := by
  rw [Action.bind_apply]
  rcases run : first state with ⟨error | value, reached⟩
  · obtain ⟨passed, ends⟩ := timely.of_run run
    exact ⟨passed, fun waits => ends (congrArg Except.error (Except.error.inj waits))⟩
  · obtain ⟨passed, -⟩ := timely.of_run run
    obtain ⟨more, ends⟩ := after value reached run
    exact ⟨passed.trans more, ends⟩

theorem Timely.bind {first : Action Clocked Raised α} {next : α → Action Clocked Raised β}
    (timely : Timely first) (after : ∀ value, Timely (next value)) : Timely (first >>= next) :=
  fun _ => timely.bind_from fun value reached _ => after value reached

theorem Timely.pure (value : α) : Timely (Pure.pure value) :=
  fun _ => ⟨.still rfl rfl, nofun⟩

theorem onPeer_timely {action : Action Peer Raised α}
    (ends : ∀ peer, (action peer).1 ≠ .error .waiting) : Timely (onPeer action) :=
  fun _ => ⟨.still rfl rfl, ends _⟩

end Timely

theorem recv_timely : Timely recv := by
  intro state
  have whole (later : List Due) :
      Passed state (endRead (state.time + state.timeout) none later state) :=
    passed_endRead (by omega) nofun
  have answered (due : Due) (later : List Due) :
      Passed state (endRead (max state.time due.time) (some due.time) later state) := by
    refine passed_endRead (le_max_left _ _) fun time isTime => ?_
    cases isTime
    exact le_max_right _ _
  unfold recv
  dsimp only
  cases state.schedule with
  | nil => exact ⟨whole [], nofun⟩
  | cons due later =>
      dsimp only
      split
      · exact ⟨whole _, nofun⟩
      · cases due.coming with
        | chunk first rest => exact ⟨answered due _, nofun⟩
        | closed => exact ⟨answered due _, nofun⟩
        | reset => exact ⟨answered due _, nofun⟩

theorem recvMore_timely : Timely recvMore := by
  refine recv_timely.bind fun chunk state => ?_
  split
  · exact ⟨.still rfl rfl, nofun⟩
  · exact ⟨.still rfl rfl, nofun⟩

theorem readUntil_timely {β : Type} {reader : Reader Octet β Raised}
    (refuses : ∀ buffer, reader buffer ≠ .refuse .waiting) : Timely (readUntil reader) := by
  intro state
  induction state using @readUntil_rec _ reader with
  | decides state decided =>
      rw [readUntil_turn]
      cases verdict : reader state.peer.buffer with
      | done value rest => exact ⟨.still rfl rfl, nofun⟩
      | refuse error =>
          refine ⟨.still rfl rfl, fun waits => ?_⟩
          cases waits
          exact refuses _ verdict
      | more => exact absurd verdict decided
  | reads state more ih =>
      rw [readUntil_turn, more]
      exact recvMore_timely.bind_from fun _ => ih

/-! ## What comes by a deadline -/

/-- When the last of what is due has come, for one who waits from `time` on. -/
def latest (time : Int) (dues : List Due) : Int := dues.foldl (fun time due => max time due.time) time

/-- A deadline, the timeout the reads are made at and the time they reach if they take all that
comes by the deadline. -/
structure Span where
  deadline : Int
  timeout : Nat
  last : Int

/-- The clocked peer is the other, to which what is due early arrives. -/
structure Splits (span : Span) (early late : List Due) (peer : Peer) (state : Clocked) : Prop where
  schedule : state.schedule = early ++ late
  inTime : ∀ due ∈ early, due.time ≤ span.deadline
  afterwards : ∀ due ∈ late.head?, span.deadline < due.time
  peer : peer = { state.peer with arrivals := early.map Due.arrival }
  time : state.time ≤ span.deadline
  timeout : state.timeout = span.timeout
  reaches : span.deadline ≤ state.time + span.timeout
  last : latest state.time early = span.last

def Together (span : Span) (peer : Peer) (state : Clocked) : Prop :=
  ∃ early late, Splits span early late peer state

/-- Where the other waits for more, the last read ends at its timeout by the deadline, or goes on
past the deadline. -/
def pace (span : Span) : Pace Peer Clocked Raised where
  waiting := .waiting
  givesUp := .timeoutError
  together := Together span
  stopped state := span.last + span.timeout ≤ span.deadline ∧ state.time ≤ span.deadline
  late state := span.deadline < span.last + span.timeout ∧ span.deadline < state.time

theorem Timely.stays {α : Type} {span : Span} {action : Action Clocked Raised α}
    (timely : Timely action) : (pace span).Stays action :=
  fun state late => ⟨late.1, late.2.trans_le (timely state).1.time⟩

/-- An action on the clocked peer that follows one without a clock, and takes time only to read. -/
structure Paces {α : Type} (untimed : Action Peer Raised α) (timed : Action Clocked Raised α) :
    Prop where
  follows : ∀ span, (pace span).Follows untimed timed
  timely : Timely timed

section Paces

variable {α β : Type}

theorem Paces.bind {untimed : Action Peer Raised α} {timed : Action Clocked Raised α}
    {next : α → Action Peer Raised β} {after : α → Action Clocked Raised β}
    (paces : Paces untimed timed) (goesOn : ∀ value, Paces (next value) (after value)) :
    Paces (untimed >>= next) (timed >>= after) where
  follows span := (paces.follows span).bind (fun value => (goesOn value).timely.stays)
    fun value => (goesOn value).follows span
  timely := paces.timely.bind fun value => (goesOn value).timely

theorem Paces.pure (value : α) :
    Paces (Pure.pure value : Action Peer Raised α) (Pure.pure value : Action Clocked Raised α) where
  follows _ := .pure value
  timely := .pure value

theorem Paces.read {view : Peer → α}
    (same : ∀ peer arrivals, view { peer with arrivals := arrivals } = view peer) :
    Paces (Action.read view : Action Peer Raised α)
      (Action.read fun state => view state.peer : Action Clocked Raised α) where
  follows span := .read fun ⟨_, _, splits⟩ => by
    rw [splits.peer]
    exact same _ _
  timely _ := ⟨.still rfl rfl, nofun⟩

theorem Paces.onPeer {action : Action Peer Raised α}
    (blind : ∀ peer arrivals, action { peer with arrivals := arrivals } =
      ((action peer).1, { (action peer).2 with arrivals := arrivals }))
    (ends : ∀ peer, (action peer).1 ≠ .error .waiting) : Paces action (onPeer action) where
  follows span := by
    rintro peer state ⟨early, late, splits⟩
    rw [splits.peer, blind]
    exact .inr ⟨rfl, early, late, splits.schedule, splits.inTime, splits.afterwards, rfl, splits.time,
      splits.timeout, splits.reaches, splits.last⟩
  timely := onPeer_timely ends

theorem Paces.update {change : Peer → Peer}
    (blind : ∀ peer arrivals, change { peer with arrivals := arrivals } =
      { change peer with arrivals := arrivals }) :
    Paces (Action.update change : Action Peer Raised Unit) (Clocked.onPeer (Action.update change)) := by
  refine .onPeer (fun peer arrivals => ?_) fun peer waits => ?_
  · rw [Action.update_apply, Action.update_apply, blind]
  · cases waits

end Paces

/-! ## Reading -/

theorem recvMore_late {span : Span} {late : List Due} {state : Clocked}
    (isSchedule : state.schedule = late) (isLate : ∀ due ∈ late.head?, span.deadline < due.time)
    (timeout : state.timeout = span.timeout) (last : state.time = span.last) :
    (pace span).Stops (recvMore state) := by
  have whole (later : List Due) :
      (pace span).Stops ((.error .timeoutError, endRead (state.time + state.timeout) none later state) :
        Except Raised Unit × Clocked) := by
    by_cases inTime : span.last + span.timeout ≤ span.deadline
    · exact .inr ⟨rfl, inTime, by rw [endRead, timeout, last]; exact inTime⟩
    · exact .inl ⟨not_le.mp inTime, by rw [endRead, timeout, last]; exact not_le.mp inTime⟩
  unfold recvMore
  rw [Action.bind_apply, recv, isSchedule]
  dsimp only
  cases late with
  | nil => exact whole []
  | cons due later =>
      have afterwards := isLate due rfl
      dsimp only
      by_cases soon : state.time + state.timeout < due.time
      · rw [if_pos soon]
        exact whole _
      · rw [if_neg soon]
        have further : span.deadline < span.last + span.timeout := by
          rw [← last, ← timeout]
          omega
        have past : span.deadline < max state.time due.time := lt_max_of_lt_right afterwards
        cases due.coming with
        | chunk first rest =>
            dsimp only
            rw [if_neg (List.cons_ne_nil _ _)]
            exact .inl ⟨further, past⟩
        | closed =>
            dsimp only
            rw [if_pos rfl]
            exact .inl ⟨further, past⟩
        | reset => exact .inl ⟨further, past⟩

/-- A read of what is due early does what it does with no clock. -/
theorem recvMore_early {span : Span} {due : Due} {early late : List Due} {peer : Peer}
    {state : Clocked} (splits : Splits span (due :: early) late peer state) :
    (Peer.recvMore peer).1 = (recvMore state).1 ∧
      Together span (Peer.recvMore peer).2 (recvMore state).2 := by
  have inTime := splits.inTime due List.mem_cons_self
  have within : ¬ state.time + state.timeout < due.time := by
    rw [splits.timeout]
    have := splits.reaches
    omega
  have soon : max state.time due.time ≤ span.deadline := max_le splits.time inTime
  have reaches : span.deadline ≤ max state.time due.time + span.timeout := by
    have := splits.reaches
    have := le_max_left state.time due.time
    omega
  have others := fun other member => splits.inTime other (List.mem_cons_of_mem _ member)
  have last : latest (max state.time due.time) early = span.last := splits.last
  have again : latest (max (max state.time due.time) due.time) early = span.last := by
    rw [max_eq_left (le_max_right state.time due.time)]
    exact last
  have isPeer := splits.peer
  rw [List.map_cons] at isPeer
  unfold recvMore Peer.recvMore
  rw [Action.bind_apply, recv, splits.schedule, isPeer]
  dsimp only [List.cons_append]
  rw [if_neg within]
  cases comes : due.coming with
  | chunk first rest =>
      have arrives : due.arrival = .chunk first rest := by rw [Due.arrival, comes, Coming.arrival]
      rw [arrives]
      dsimp only [Arrival.recv]
      rw [if_neg (List.cons_ne_nil _ _)]
      refine ⟨rfl, putBack due.time (rest.drop (RECV_SIZE - 1)) early, late, ?_⟩
      cases rest.drop (RECV_SIZE - 1) with
      | nil => exact ⟨rfl, others, splits.afterwards, rfl, soon, splits.timeout, reaches, last⟩
      | cons next more =>
          refine ⟨rfl, fun other member => ?_, splits.afterwards, rfl, soon, splits.timeout, reaches,
            again⟩
          rcases List.mem_cons.mp member with rfl | member
          · exact inTime
          · exact others other member
  | closed =>
      have arrives : due.arrival = .closed := by rw [Due.arrival, comes, Coming.arrival]
      rw [arrives]
      dsimp only [Arrival.recv]
      rw [if_pos rfl]
      refine ⟨rfl, due :: early, late, rfl, splits.inTime, splits.afterwards, ?_, soon,
        splits.timeout, reaches, again⟩
      rw [List.map_cons, arrives]
      rfl
  | reset =>
      have arrives : due.arrival = .reset := by rw [Due.arrival, comes, Coming.arrival]
      rw [arrives]
      exact ⟨rfl, early, late, rfl, others, splits.afterwards, rfl, soon, splits.timeout, reaches,
        last⟩

theorem recvMore_paces : Paces Peer.recvMore recvMore where
  follows span := by
    rintro peer state ⟨early, late, splits⟩
    cases early with
    | nil =>
        have waits : (Peer.recvMore peer).1 = .error .waiting := by
          rw [splits.peer]
          rfl
        exact .inl ⟨waits, recvMore_late splits.schedule splits.afterwards splits.timeout splits.last⟩
    | cons due early => exact .inr (recvMore_early splits)
  timely := recvMore_timely

theorem readUntil_paces {β : Type} {reader : Reader Octet β Raised}
    (refuses : ∀ buffer, reader buffer ≠ .refuse .waiting) :
    Paces (Peer.readUntil reader) (readUntil reader) where
  follows span := by
    intro peer state together
    induction state using @readUntil_rec _ reader generalizing peer with
    | decides state decided =>
        obtain ⟨early, late, splits⟩ := together
        rw [readUntil_turn, Peer.readUntil_turn, splits.peer]
        dsimp only
        cases verdict : reader state.peer.buffer with
        | done value rest =>
            exact .inr ⟨rfl, early, late, splits.schedule, splits.inTime, splits.afterwards, rfl,
              splits.time, splits.timeout, splits.reaches, splits.last⟩
        | refuse error =>
            exact .inr ⟨rfl, early, late, splits.schedule, splits.inTime, splits.afterwards, rfl,
              splits.time, splits.timeout, splits.reaches, splits.last⟩
        | more => exact absurd verdict decided
    | reads state more ih =>
        have same : reader peer.buffer = .more := by
          obtain ⟨early, late, splits⟩ := together
          rw [splits.peer]
          exact more
        rw [readUntil_turn, Peer.readUntil_turn, more, same]
        refine (recvMore_paces.follows span peer state together).bind
          (fun _ => (readUntil_timely refuses).stays) fun _ reached left _ run related => ?_
        exact ih left run reached related
  timely := readUntil_timely refuses

/-! ## Messages -/

theorem messageReader_refuses (wire : Wire) (magic buffer : List Octet) :
    Peer.messageReader wire magic buffer ≠ .refuse .waiting := by
  unfold Peer.messageReader
  dsimp only
  split
  · nofun
  · split
    · nofun
    · nofun
    · nofun

theorem takeReader_refuses (size : Nat) (buffer : List Octet) :
    Peer.takeReader size buffer ≠ .refuse .waiting := by
  unfold Peer.takeReader
  split
  · nofun
  · nofun

theorem receiveV1_paces (wire : Wire) : Paces (Peer.receiveV1 wire) (intake.receiveV1 wire) :=
  (Paces.read fun _ _ => rfl).bind fun _ => readUntil_paces (messageReader_refuses wire _)

section Packets

variable (wire : Wire) (cipher : Cipher)

theorem keepLength_paces (octets : List Octet) :
    Paces (Peer.keepLength cipher octets) (onPeer (Peer.keepLength cipher octets)) :=
  .onPeer (fun _ _ => rfl) fun _ => nofun

theorem decryptLength_paces :
    Paces (Peer.decryptLength cipher) (intake.decryptLength cipher) :=
  (readUntil_paces (takeReader_refuses _)).bind (keepLength_paces cipher)

theorem decrypt_paces (ciphertext : List Octet) :
    Paces (Peer.decrypt cipher ciphertext) (onPeer (Peer.decrypt cipher ciphertext)) := by
  refine .onPeer (fun peer arrivals => ?_) fun peer => ?_
  · simp only [Peer.decrypt, Action.read_bind, Action.update_bind]
    cases cipher.decrypt peer.calls ciphertext peer.aad with
    | none => rfl
    | some packet => rfl
  · simp only [Peer.decrypt, Action.read_bind, Action.update_bind]
    cases cipher.decrypt peer.calls ciphertext peer.aad with
    | none => simp [Action.raise]
    | some packet => simp [Pure.pure]

theorem receivePacket_paces :
    Paces (Peer.receivePacket cipher) (intake.receivePacket cipher) := by
  refine (Paces.read fun _ _ => rfl).bind fun pending => ?_
  have body (length : Nat) : Paces (Peer.intake.body cipher length) (intake.body cipher length) :=
    (readUntil_paces (takeReader_refuses (HEADER_LEN + length + TAG_LEN))).bind
      (decrypt_paces cipher)
  cases pending with
  | none => exact (decryptLength_paces cipher).bind body
  | some length => exact body length

theorem receiveV2_timely : Timely (intake.receiveV2 wire cipher) := by
  intro state
  induction size : state.ahead.length using Nat.strong_induction_on generalizing state with
  | _ length ih =>
      subst size
      rw [Intake.receiveV2_turn]
      refine (receivePacket_paces cipher).timely.bind_from fun answer reached run => ?_
      have later := ih _ (Intake.receivePacket_shrinks run) reached rfl
      unfold Intake.onPacket
      split
      · exact later
      · split
        · exact later
        · exact ⟨.still rfl rfl, by simp⟩

theorem receiveV2_paces : Paces (Peer.receiveV2 wire cipher) (intake.receiveV2 wire cipher) where
  follows span := by
    intro peer state together
    induction size : state.ahead.length using Nat.strong_induction_on generalizing peer state with
    | _ length ih =>
        subst size
        rw [Peer.receiveV2, Intake.receiveV2_turn, Intake.receiveV2_turn]
        refine ((receivePacket_paces cipher).follows span peer state together).bind
          (fun answer => ?_) fun answer reached left _ run related => ?_
        · refine Timely.stays fun state => ?_
          unfold Intake.onPacket
          split
          · exact receiveV2_timely wire cipher state
          · split
            · exact receiveV2_timely wire cipher state
            · exact ⟨.still rfl rfl, by simp⟩
        · have later := ih _ (Intake.receivePacket_shrinks run) reached left related rfl
          unfold Intake.onPacket
          split
          · exact later
          · split
            · exact later
            · obtain ⟨early, late, splits⟩ := related
              refine .inr ⟨?_, early, late, splits⟩
              rw [splits.peer]
              rfl
  timely := receiveV2_timely wire cipher

end Packets

theorem receive_paces (wire : Wire) : Paces (Peer.receive wire) (receive wire) := by
  have counted (message : Message) :
      Paces (Action.update (Peer.count message) >>= fun _ => Pure.pure message)
        (onPeer (Action.update (Peer.count message)) >>= fun _ => Pure.pure message) :=
    (Paces.update fun _ _ => rfl).bind fun _ => .pure message
  refine (Paces.read fun _ _ => rfl).bind fun cipher => ?_
  cases cipher with
  | none => exact (receiveV1_paces wire).bind counted
  | some cipher => exact (receiveV2_paces wire cipher).bind counted

end Clocked

end BitcoinNodeTests
