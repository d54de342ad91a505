import BitcoinNodeTests.Foundation.Resume
import BitcoinNodeTests.Peer.Arrived
import BitcoinNodeTests.Peer.PlainWire
import BitcoinNodeTests.Peer.WaitFor

/-!
# How `wait_for` splits the incoming messages

Each call of `wait_for` consumes the messages up to the first it accepts, answers the pings among
them and leaves the others.  The messages are those that have arrived on either transport, glued
together and cut as they may be, and the clock is read once for the deadline and once a turn.
-/

set_option autoImplicit false

namespace BitcoinNodeTests

open Foundation

namespace Peer

structure Voice where
  magic : List Octet
  cipher : Option Cipher
  sent : List Octet
  encrypted : List Encryption

def voice (peer : Peer) : Voice := ⟨peer.magic, peer.cipher, peer.sent, peer.encrypted⟩

def Voice.say (wire : Wire) (command : String) (payload : List Octet) (voice : Voice) : Voice :=
  match voice.cipher with
  | none => { voice with sent := voice.sent ++ wire.serialize ⟨voice.magic, command, payload⟩ }
  | some cipher =>
      let packet : Encryption := ⟨wire.contentsFromMessage command payload, [], false⟩
      { voice with
        sent := voice.sent ++ cipher.encrypt voice.encrypted packet
        encrypted := voice.encrypted ++ [packet] }

/-- What was sent changed, and nothing else. -/
def Spoke (peer said : Peer) : Prop :=
  said = { peer with sent := said.sent, encrypted := said.encrypted }

theorem send_speaks (wire : Wire) (command : String) (payload : List Octet) (peer : Peer) :
    ∃ said, send wire command payload false peer = (.ok (), said) ∧
      said.voice = peer.voice.say wire command payload ∧ Spoke peer said := by
  unfold send
  rw [Action.read_bind]
  have voiced : peer.voice.say wire command payload = match peer.cipher with
      | none => { peer.voice with
          sent := peer.sent ++ wire.serialize ⟨peer.magic, command, payload⟩ }
      | some cipher =>
          let packet : Encryption := ⟨wire.contentsFromMessage command payload, [], false⟩
          { peer.voice with
            sent := peer.sent ++ cipher.encrypt peer.encrypted packet
            encrypted := peer.encrypted ++ [packet] } := rfl
  rw [voiced, id_eq]
  cases speaks : peer.cipher with
  | none => exact ⟨_, rfl, by rw [voice, voice], rfl⟩
  | some cipher => exact ⟨_, rfl, by rw [voice, voice], rfl⟩

theorem Arrived.spoke {wire : Wire} {messages : List Message} {peer said : Peer}
    (arrived : Arrived wire messages peer) (spoke : Spoke peer said) :
    Arrived wire messages said := by
  rw [spoke]
  cases arrived with
  | plain code speaksV1 under whole =>
      exact @Arrived.plain wire _ _ { peer with sent := said.sent, encrypted := said.encrypted }
        code speaksV1 under whole
  | encrypted deciphers split speaksV2 tracked whole =>
      exact @Arrived.encrypted wire _ _ _ _ _ _ _
        { peer with sent := said.sent, encrypted := said.encrypted } deciphers split speaksV2
        ⟨tracked.aad_eq, tracked.position⟩ whole

end Peer

/-! ## A peer and its clock -/

/-- A peer and what each call of `time.monotonic` answers, `ticks` of which were made. -/
structure Waiter where
  peer : Peer
  clock : Nat → Int
  ticks : Nat

/-- One call of `wait_for`. -/
structure Wait where
  command : String
  predicate : Option (Message → Bool)
  timeout : Option Int

def Wait.Accepts (wait : Wait) (message : Message) : Prop :=
  message.command = wait.command ∧ ∀ predicate ∈ wait.predicate, predicate message

instance (wait : Wait) : DecidablePred wait.Accepts := fun message =>
  inferInstanceAs (Decidable (message.command = wait.command ∧
    ∀ predicate ∈ wait.predicate, predicate message))

namespace Waiter

def onPeer {α : Type} (action : Action Peer Raised α) : Action Waiter Raised α :=
  Action.onPart Waiter.peer (fun peer waiter => { waiter with peer := peer }) action

theorem onPeer_of {α : Type} {action : Action Peer Raised α} {waiter : Waiter} {reached : Peer}
    {result : Except Raised α} (run : action waiter.peer = (result, reached)) :
    onPeer action waiter = (result, { waiter with peer := reached }) := by
  rw [onPeer, Action.onPart_apply, run]

def monotonic : Action Waiter Raised Int := fun waiter =>
  (.ok (waiter.clock waiter.ticks), { waiter with ticks := waiter.ticks + 1 })

/-- A wait that ends is a `quiet` arrival, and `wait_for` draws no secret. -/
def endpoint (wire : Wire) (timeout : Int) (scaled : Int → Int) : Endpoint Waiter where
  receive _ := onPeer (Peer.receive wire)
  send command payload := onPeer (Peer.send wire command payload false)
  monotonic := monotonic
  randbelow _ := Action.raise .waiting
  timeout := timeout
  scaled := scaled

/-- The call, its predicate raising nothing. -/
def waitFor (pings : Pings) (endpoint : Endpoint Waiter) (turns : Nat) (wait : Wait) :
    Action Waiter WaitRaised Message :=
  endpoint.waitFor pings wait.command (wait.predicate.map fun predicate message =>
    .ok (predicate message)) wait.timeout turns

def waitForAll (pings : Pings) (endpoint : Endpoint Waiter) (turns : Nat) :
    List Wait → Action Waiter WaitRaised (List Message)
  | [] => pure []
  | wait :: waits => do
      let message ← waitFor pings endpoint turns wait
      let messages ← waitForAll pings endpoint turns waits
      pure (message :: messages)

/-- What one call consumed: the messages it dropped, and the one it returned. -/
structure Run where
  dropped : List Message
  found : Message

def Run.messages (run : Run) : List Message := run.dropped ++ [run.found]

/-- Each call consumes the messages up to the first it accepts, and the next goes on there. -/
inductive Splits : List Wait → List Message → List Run → List Message → Prop where
  | done (left : List Message) : Splits [] left [] left
  | call {wait : Wait} {waits : List Wait} {run : Run} {runs : List Run}
      {incoming left : List Message} (drops : ∀ message ∈ run.dropped, ¬ wait.Accepts message)
      (finds : wait.Accepts run.found) (later : Splits waits incoming runs left) :
      Splits (wait :: waits) (run.messages ++ incoming) (run :: runs) left

theorem Splits.whole {waits : List Wait} {incoming left : List Message} {runs : List Run}
    (splits : Splits waits incoming runs left) : incoming = runs.flatMap Run.messages ++ left := by
  induction splits with
  | done left => rfl
  | call drops finds later ih => rw [List.flatMap_cons, List.append_assoc, ← ih]

def nonces (pings : Pings) (messages : List Message) : List UInt64 :=
  (messages.filter fun message => message.command = "ping").filterMap fun message =>
    pings.parsePing message.payload

def answers (wire : Wire) (pings : Pings) (nonces : List UInt64) (voice : Peer.Voice) :
    Peer.Voice :=
  nonces.foldl (fun voice nonce => voice.say wire "pong" (pings.pong nonce)) voice

/-- How long a call may wait: its own timeout is scaled, the peer's is scaled already. -/
def allowed (endpoint : Endpoint Waiter) (wait : Wait) : Int :=
  match wait.timeout with
  | none => endpoint.timeout
  | some timeout => endpoint.scaled timeout

/-- Every reading of the clock a call makes comes before its deadline: one a message. -/
def InTime (endpoint : Endpoint Waiter) (clock : Nat → Int) : Nat → List Wait → List Run → Prop
  | ticks, wait :: waits, run :: runs =>
      (∀ turn ≤ run.dropped.length,
          clock (ticks + 1 + turn) < clock ticks + allowed endpoint wait) ∧
        InTime endpoint clock (ticks + 1 + run.messages.length) waits runs
  | _, _, _ => True

/-! ## One turn -/

section Calls

variable {wire : Wire} {pings : Pings} {timeout : Int} {scaled : Int → Int}

/-- From one state to the other the messages were consumed, the pings among them answered, and
`later` is what has arrived behind them. -/
structure Took (wire : Wire) (pings : Pings) (messages later : List Message)
    (waiter reached : Waiter) : Prop where
  clock : reached.clock = waiter.clock
  arrived : Peer.Arrived wire later reached.peer
  counts : ∀ returned, Peer.Counts returned waiter.peer →
    Peer.Counts (returned ++ messages) reached.peer
  voice : reached.peer.voice = answers wire pings (nonces pings messages) waiter.peer.voice

theorem nonces_append (first second : List Message) :
    nonces pings (first ++ second) = nonces pings first ++ nonces pings second := by
  rw [nonces, List.filter_append, List.filterMap_append]
  rfl

theorem Took.nothing {later : List Message} {waiter : Waiter}
    (arrived : Peer.Arrived wire later waiter.peer) : Took wire pings [] later waiter waiter where
  clock := rfl
  arrived := arrived
  counts returned counts := by
    rw [List.append_nil]
    exact counts
  voice := rfl

theorem Took.trans {first second middle later : List Message} {waiter between reached : Waiter}
    (before : Took wire pings first middle waiter between)
    (after : Took wire pings second later between reached) :
    Took wire pings (first ++ second) later waiter reached where
  clock := after.clock.trans before.clock
  arrived := after.arrived
  counts returned counts := by
    rw [← List.append_assoc]
    exact after.counts _ (before.counts returned counts)
  voice := by
    rw [after.voice, before.voice, nonces_append, answers, answers, answers, List.foldl_append]

def PingsParse (pings : Pings) (messages : List Message) : Prop :=
  ∀ message ∈ messages, message.command = "ping" → (pings.parsePing message.payload).isSome

instance (pings : Pings) (messages : List Message) : Decidable (PingsParse pings messages) :=
  inferInstanceAs (Decidable (∀ message ∈ messages,
    message.command = "ping" → (pings.parsePing message.payload).isSome))

theorem PingsParse.split {first second : List Message}
    (parse : PingsParse pings (first ++ second)) :
    PingsParse pings first ∧ PingsParse pings second :=
  ⟨fun message member => parse message (List.mem_append_left _ member),
    fun message member => parse message (List.mem_append_right _ member)⟩

theorem answerPing_took {message : Message} {waiter : Waiter} {later : List Message}
    (arrived : Peer.Arrived wire later waiter.peer) (parse : PingsParse pings [message]) :
    ∃ reached, (endpoint wire timeout scaled).answerPing pings message waiter = (.ok (), reached) ∧
      reached.clock = waiter.clock ∧ reached.ticks = waiter.ticks ∧
      Peer.Arrived wire later reached.peer ∧
      (∀ returned, Peer.Counts returned waiter.peer → Peer.Counts returned reached.peer) ∧
      reached.peer.voice = answers wire pings (nonces pings [message]) waiter.peer.voice := by
  unfold Endpoint.answerPing
  by_cases isPing : message.command = "ping"
  · obtain ⟨nonce, parsed⟩ :=
      Option.isSome_iff_exists.mp (parse message List.mem_cons_self isPing)
    obtain ⟨said, run, voice, spoke⟩ :=
      Peer.send_speaks wire "pong" (pings.pong nonce) waiter.peer
    have asked : nonces pings [message] = [nonce] := by
      simp [nonces, isPing, parsed]
    refine ⟨{ waiter with peer := said }, ?_, rfl, rfl, arrived.spoke spoke, ?_, ?_⟩
    · have sends : (endpoint wire timeout scaled).send "pong" (pings.pong nonce) waiter =
          (.ok (), { waiter with peer := said }) := onPeer_of run
      simp only [if_pos isPing, parsed]
      rw [Endpoint.lift, sends]
    · intro returned counts
      exact counts.same (by rw [spoke]) (by rw [spoke])
    · rw [asked]
      exact voice
  · have asked : nonces pings [message] = [] := by
      simp [nonces, isPing]
    rw [if_neg isPing, asked]
    exact ⟨waiter, rfl, rfl, rfl, arrived, fun _ counts => counts, rfl⟩

/-- A turn before the deadline reads the next message, and the rest of it looks at that. -/
theorem turn_reads {message : Message} {later : List Message} {waiter : Waiter} {deadline : Int}
    (command : String) (predicate : Option (Message → Except Raised Bool))
    (arrived : Peer.Arrived wire (message :: later) waiter.peer)
    (inTime : waiter.clock waiter.ticks < deadline) :
    ∃ read, waiter.peer.SameButReading read ∧
      Peer.Arrived wire later (Peer.count message read) ∧
      ∀ turns, (endpoint wire timeout scaled).waitUntil pings command predicate deadline (turns + 1)
        waiter = ((endpoint wire timeout scaled).answerPing pings message >>= fun _ =>
          match Endpoint.awaited command predicate message with
          | .error error => Action.raise (.raised error)
          | .ok true => pure message
          | .ok false =>
              (endpoint wire timeout scaled).waitUntil pings command predicate deadline turns)
          { waiter with peer := Peer.count message read, ticks := waiter.ticks + 1 } := by
  obtain ⟨read, run, reading, behind⟩ := arrived.receive
  refine ⟨read, reading, behind, fun turns => ?_⟩
  have ticked : Endpoint.lift (endpoint wire timeout scaled).monotonic waiter =
      (.ok (waiter.clock waiter.ticks), { waiter with ticks := waiter.ticks + 1 }) := rfl
  have within : (endpoint wire timeout scaled).receiveWithin
      (deadline - waiter.clock waiter.ticks) { waiter with ticks := waiter.ticks + 1 } =
        (.ok (some message), { waiter with
          peer := Peer.count message read
          ticks := waiter.ticks + 1 }) := by
    have receives : (endpoint wire timeout scaled).receive (deadline - waiter.clock waiter.ticks)
        { waiter with ticks := waiter.ticks + 1 } = _ :=
      @onPeer_of _ _ { waiter with ticks := waiter.ticks + 1 } _ _ run
    rw [Endpoint.receiveWithin, receives]
  rw [Endpoint.waitUntil, Action.bind_of_ok _ ticked, if_neg (by omega)]
  exact Action.bind_of_ok _ within

/-- A turn before the deadline takes the next message and answers it where it is a ping. -/
theorem turn_took {message : Message} {later : List Message} {waiter : Waiter} {deadline : Int}
    (command : String) (predicate : Option (Message → Except Raised Bool))
    (arrived : Peer.Arrived wire (message :: later) waiter.peer)
    (parse : PingsParse pings [message]) (inTime : waiter.clock waiter.ticks < deadline) :
    ∃ reached, Took wire pings [message] later waiter reached ∧
      reached.ticks = waiter.ticks + 1 ∧
      ∀ turns, (endpoint wire timeout scaled).waitUntil pings command predicate deadline (turns + 1)
        waiter = match Endpoint.awaited command predicate message with
          | .error error => (.error (.raised error), reached)
          | .ok true => (.ok message, reached)
          | .ok false =>
              (endpoint wire timeout scaled).waitUntil pings command predicate deadline turns
                reached := by
  obtain ⟨read, reading, behind, next⟩ :=
    @turn_reads wire pings timeout scaled _ _ _ _ command predicate arrived inTime
  obtain ⟨reached, answered, sameClock, sameTicks, still, kept, voice⟩ :=
    @answerPing_took wire pings timeout scaled message
      { waiter with peer := Peer.count message read, ticks := waiter.ticks + 1 } later behind parse
  refine ⟨reached, ⟨sameClock, still, fun returned counts => kept _ ?_, ?_⟩, sameTicks,
    fun turns => ?_⟩
  · have before : Peer.Counts returned read :=
      counts.same (by rw [reading]) (by rw [reading])
    exact before.count message
  · have sameVoice : (Peer.count message read).voice = waiter.peer.voice := by
      rw [Peer.voice, Peer.count, reading]
      rfl
    rw [voice]
    exact congrArg _ sameVoice
  · rw [next, Action.bind_of_ok _ answered]
    rcases Endpoint.awaited command predicate message with error | answer
    · rfl
    · cases answer with
      | true => rfl
      | false => rfl

/-- A ping whose payload carries no nonce ends the call that meets it: `Ping.parse` raises. -/
theorem turn_malformed {message : Message} {later : List Message} {waiter : Waiter}
    {deadline : Int} (command : String) (predicate : Option (Message → Except Raised Bool))
    (arrived : Peer.Arrived wire (message :: later) waiter.peer)
    (isPing : message.command = "ping") (malformed : pings.parsePing message.payload = none)
    (inTime : waiter.clock waiter.ticks < deadline) :
    ∃ reached, ∀ turns, (endpoint wire timeout scaled).waitUntil pings command predicate deadline
      (turns + 1) waiter = (.error (.raised .btclibValueError), reached) := by
  obtain ⟨read, -, -, next⟩ :=
    @turn_reads wire pings timeout scaled _ _ _ _ command predicate arrived inTime
  refine ⟨{ waiter with peer := Peer.count message read, ticks := waiter.ticks + 1 },
    fun turns => ?_⟩
  have raises : Endpoint.answerPing pings (endpoint wire timeout scaled) message =
      Action.raise (.raised .btclibValueError) := by
    unfold Endpoint.answerPing
    rw [if_pos isPing, malformed]
  rw [next, raises]
  exact Action.bind_of_error _ rfl

/-! ## One call, and calls one after another -/

theorem awaited_eq (wait : Wait) (message : Message) :
    Endpoint.awaited wait.command (wait.predicate.map fun predicate message =>
      .ok (predicate message)) message = .ok (decide (wait.Accepts message)) := by
  obtain ⟨command, predicate, timeout⟩ := wait
  unfold Endpoint.awaited
  by_cases named : message.command = command
  · cases predicate with
    | none => simp [named, Wait.Accepts]
    | some predicate => simp [named, Wait.Accepts]
  · simp [named, Wait.Accepts]

/-- The turns up to the message the call accepts, by induction on those it drops. -/
theorem waitUntil_took {wait : Wait} {found : Message} {later : List Message} {deadline : Int}
    (finds : wait.Accepts found) (dropped : List Message) :
    ∀ {waiter : Waiter} {turns : Nat},
      Peer.Arrived wire (dropped ++ found :: later) waiter.peer →
      (∀ message ∈ dropped, ¬ wait.Accepts message) → PingsParse pings (dropped ++ [found]) →
      (∀ turn ≤ dropped.length, waiter.clock (waiter.ticks + turn) < deadline) →
      dropped.length < turns →
      ∃ reached, (endpoint wire timeout scaled).waitUntil pings wait.command
          (wait.predicate.map fun predicate message => .ok (predicate message)) deadline turns
          waiter = (.ok found, reached) ∧
        reached.ticks = waiter.ticks + (dropped ++ [found]).length ∧
        Took wire pings (dropped ++ [found]) later waiter reached := by
  induction dropped with
  | nil =>
      intro waiter turns arrived _ parse inTime enough
      obtain ⟨turns, rfl⟩ := Nat.exists_eq_succ_of_ne_zero (Nat.ne_of_gt enough)
      obtain ⟨reached, took, ticks, next⟩ := @turn_took wire pings timeout scaled found later waiter
        deadline wait.command (wait.predicate.map fun predicate message => .ok (predicate message))
        arrived parse (inTime 0 le_rfl)
      refine ⟨reached, ?_, ticks, took⟩
      rw [next, awaited_eq, decide_eq_true finds]
  | cons first dropped ih =>
      intro waiter turns arrived drops parse inTime enough
      obtain ⟨turns, rfl⟩ := Nat.exists_eq_succ_of_ne_zero (Nat.ne_of_gt (Nat.zero_lt_of_lt enough))
      obtain ⟨middle, took, ticks, next⟩ := @turn_took wire pings timeout scaled first
        (dropped ++ found :: later) waiter deadline wait.command
        (wait.predicate.map fun predicate message => .ok (predicate message)) arrived
        (fun message member => parse message (by
          rw [List.mem_singleton.mp member]
          exact List.mem_cons_self)) (inTime 0 (Nat.zero_le _))
      obtain ⟨reached, run, moreTicks, more⟩ := @ih middle turns took.arrived
        (fun message member => drops message (List.mem_cons_of_mem _ member))
        (fun message member => parse message (List.mem_cons_of_mem _ member))
        (fun turn few => by
          have before := inTime (turn + 1) (Nat.succ_le_succ few)
          rw [took.clock, ticks]
          rwa [Nat.add_assoc, Nat.add_comm 1 turn])
        (Nat.lt_of_succ_lt_succ enough)
      refine ⟨reached, ?_, ?_, took.trans more⟩
      · rw [next, awaited_eq, decide_eq_false (drops first List.mem_cons_self)]
        exact run
      · rw [moreTicks, ticks, List.cons_append, List.length_cons]
        omega

/-- The deadline is fixed by one reading of the clock, and the turns read it once more each. -/
theorem waitFor_took {wait : Wait} {found : Message} {later : List Message} {waiter : Waiter}
    {turns : Nat} (finds : wait.Accepts found) (dropped : List Message)
    (arrived : Peer.Arrived wire (dropped ++ found :: later) waiter.peer)
    (drops : ∀ message ∈ dropped, ¬ wait.Accepts message)
    (parse : PingsParse pings (dropped ++ [found]))
    (inTime : ∀ turn ≤ dropped.length, waiter.clock (waiter.ticks + 1 + turn) <
      waiter.clock waiter.ticks + allowed (endpoint wire timeout scaled) wait)
    (enough : dropped.length < turns) :
    ∃ reached, waitFor pings (endpoint wire timeout scaled) turns wait waiter =
        (.ok found, reached) ∧
      reached.ticks = waiter.ticks + 1 + (dropped ++ [found]).length ∧
      Took wire pings (dropped ++ [found]) later waiter reached := by
  obtain ⟨reached, run, ticks, took⟩ := @waitUntil_took wire pings timeout scaled wait found later
    _ finds dropped { waiter with ticks := waiter.ticks + 1 } turns arrived drops parse inTime
    enough
  refine ⟨reached, ?_, ticks, took.clock, took.arrived, took.counts, took.voice⟩
  have ticked : Endpoint.lift (endpoint wire timeout scaled).monotonic waiter =
      (.ok (waiter.clock waiter.ticks), { waiter with ticks := waiter.ticks + 1 }) := rfl
  unfold waitFor Endpoint.waitFor
  rw [Action.bind_of_ok _ ticked]
  exact run

/-- However the incoming messages split into the runs of the calls, that is how the calls
consume them: each returns the first it accepts, every ping consumed is answered once and in
order, every message consumed is counted, and the others are left for the next call. -/
theorem waitForAll_splits {waits : List Wait} {incoming left : List Message} {runs : List Run}
    (splits : Splits waits incoming runs left) : ∀ {waiter : Waiter} {turns : Nat},
      Peer.Arrived wire incoming waiter.peer →
      PingsParse pings (runs.flatMap Run.messages) →
      InTime (endpoint wire timeout scaled) waiter.clock waiter.ticks waits runs →
      (∀ run ∈ runs, run.dropped.length < turns) →
      incoming = runs.flatMap Run.messages ++ left ∧
      ∃ reached, waitForAll pings (endpoint wire timeout scaled) turns waits waiter =
          (.ok (runs.map Run.found), reached) ∧
        Took wire pings (runs.flatMap Run.messages) left waiter reached := by
  have whole := splits.whole
  induction splits with
  | done left =>
      intro waiter turns arrived _ _ _
      exact ⟨rfl, waiter, rfl, Took.nothing arrived⟩
  | @call wait waits run runs incoming left drops finds later ih =>
      intro waiter turns arrived parse inTime enough
      obtain ⟨soon, inTimeLater⟩ := inTime
      have front : run.messages ++ incoming = run.dropped ++ run.found :: incoming := by
        rw [Run.messages, List.append_assoc, List.singleton_append]
      rw [front] at arrived
      obtain ⟨parses, parsesLater⟩ := parse.split
      obtain ⟨between, found, ticks, took⟩ := waitFor_took finds run.dropped arrived drops parses
        soon (enough run List.mem_cons_self)
      obtain ⟨-, reached, others, tookLater⟩ := @ih later.whole between turns took.arrived parsesLater
        (by rw [took.clock, ticks]; exact inTimeLater)
        (fun other member => enough other (List.mem_cons_of_mem _ member))
      refine ⟨whole, reached, ?_, ?_⟩
      · rw [waitForAll, Action.bind_of_ok _ found, Action.bind_of_ok _ others]
        rfl
      · rw [List.flatMap_cons]
        exact took.trans tookLater

end Calls

/-! ## A ping, a verack and a ping -/

def regtest (command : String) (payload : List Octet) : Message :=
  ⟨Peer.regtestMagic, command, payload⟩

/-- A waiter of a minute on the clock that stands still, all of it cut behind two octets. -/
def waitingOn (messages : List Message) : Waiter where
  peer :=
    let octets := Peer.serializeAll PlainWire.wire messages
    Peer.adopt Peer.regtestMagic true
      (Arrival.putBack (octets.take 2) (Arrival.putBack (octets.drop 2) [.quiet]))
  clock _ := 0
  ticks := 0

theorem waitingOn_arrived {messages : List Message}
    (under : ∀ message ∈ messages,
      PlainWire.Valid message ∧ message.magic = Peer.regtestMagic) :
    Peer.Arrived PlainWire.wire messages (waitingOn messages).peer := by
  refine .plain PlainWire.wire_prefixCode rfl under ⟨[], ?_⟩
  rw [List.append_nil]
  simp only [waitingOn, Peer.adopt, Peer.promptAhead, Arrival.prompt_putBack, Arrival.prompt,
    List.nil_append, List.append_nil, List.take_append_drop]

def nonceOf (message : Message) : Option UInt64 := Link.plainPings.parsePing message.payload

def verackThenPing : List Wait :=
  [⟨"verack", none, none⟩, ⟨"ping", some fun message => nonceOf message = some 7, some 1⟩]

theorem valid_regtest {command : String} {payload : List Octet}
    (known : command ∈ PlainWire.commands) (few : payload.length ≤ 8) :
    PlainWire.Valid (regtest command payload) ∧
      (regtest command payload).magic = Peer.regtestMagic :=
  ⟨⟨rfl, known, few.trans_lt (by decide)⟩, rfl⟩

theorem waitForAll_splits_twice :
    ∃ reached, waitForAll Link.plainPings (endpoint PlainWire.wire 60 id) 2 verackThenPing
        (waitingOn [regtest "ping" (Link.nonceOctets 5), regtest "verack" [],
          regtest "ping" (Link.nonceOctets 7), regtest "verack" []]) =
        (.ok [regtest "verack" [], regtest "ping" (Link.nonceOctets 7)], reached) ∧
      reached.peer.voice.sent =
        PlainWire.wire.serialize (regtest "pong" (Link.nonceOctets 5)) ++
          PlainWire.wire.serialize (regtest "pong" (Link.nonceOctets 7)) := by
  have arrived := @waitingOn_arrived [regtest "ping" (Link.nonceOctets 5), regtest "verack" [],
      regtest "ping" (Link.nonceOctets 7), regtest "verack" []] (by
    intro message member
    simp only [List.mem_cons, List.not_mem_nil, or_false] at member
    rcases member with rfl | rfl | rfl | rfl
    · exact valid_regtest (by decide) le_rfl
    · exact valid_regtest (by decide) (Nat.zero_le _)
    · exact valid_regtest (by decide) le_rfl
    · exact valid_regtest (by decide) (Nat.zero_le _))
  have splits : Splits verackThenPing
      ((⟨[regtest "ping" (Link.nonceOctets 5)], regtest "verack" []⟩ : Run).messages ++
        ((⟨[], regtest "ping" (Link.nonceOctets 7)⟩ : Run).messages ++ [regtest "verack" []]))
      [⟨[regtest "ping" (Link.nonceOctets 5)], regtest "verack" []⟩,
        ⟨[], regtest "ping" (Link.nonceOctets 7)⟩] [regtest "verack" []] :=
    .call (by decide) (by decide) (.call nofun (by decide) (.done _))
  obtain ⟨-, reached, run, took⟩ := @waitForAll_splits PlainWire.wire Link.plainPings 60 id _ _ _ _
    splits _ 2 arrived (by decide) (by simp [InTime, verackThenPing, allowed, endpoint, waitingOn])
    (by decide)
  exact ⟨reached, run, congrArg Peer.Voice.sent took.voice⟩

/-- The ping carries no nonce, so the call raises and returns nothing. -/
theorem waitForAll_malformed_ping :
    let waits : List Wait := [⟨"verack", none, none⟩]
    let runs : List Run := [⟨[regtest "ping" []], regtest "verack" []⟩]
    let incoming := [regtest "ping" [], regtest "verack" []]
    Splits waits incoming runs [] ∧
      Peer.Arrived PlainWire.wire incoming (waitingOn incoming).peer ∧
      InTime (endpoint PlainWire.wire 60 id) (waitingOn incoming).clock 0 waits runs ∧
      ∃ reached, ∀ turns, waitForAll Link.plainPings (endpoint PlainWire.wire 60 id) (turns + 1)
        waits (waitingOn incoming) = (.error (.raised .btclibValueError), reached) := by
  have splits : Splits [⟨"verack", none, none⟩]
      ((⟨[regtest "ping" []], regtest "verack" []⟩ : Run).messages ++ [])
      [⟨[regtest "ping" []], regtest "verack" []⟩] [] := .call (by decide) (by decide) (.done _)
  have arrived := @waitingOn_arrived [regtest "ping" [], regtest "verack" []] (by
    intro message member
    simp only [List.mem_cons, List.not_mem_nil, or_false] at member
    rcases member with rfl | rfl
    · exact valid_regtest (by decide) (Nat.zero_le _)
    · exact valid_regtest (by decide) (Nat.zero_le _))
  obtain ⟨reached, raises⟩ := @turn_malformed PlainWire.wire Link.plainPings 60 id _ _
    { waitingOn [regtest "ping" [], regtest "verack" []] with ticks := 1 } 60 "verack" none arrived
    rfl rfl (by decide)
  refine ⟨splits, arrived, by simp [InTime, allowed, endpoint, waitingOn], reached, fun turns => ?_⟩
  exact Action.bind_of_error _ (raises turns)

end Waiter

end BitcoinNodeTests
