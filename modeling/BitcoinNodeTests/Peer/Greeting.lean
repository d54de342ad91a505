import BitcoinNodeTests.Peer.Split

/-!
# The handshake

`handshake` as a script of messages to send and commands to wait for.  On any connection and
whatever the node does, it sends its own messages in the script's order, each after what it waits
for ahead of it, and between them nothing but a pong for each ping.  Where the node's `version`
and `verack` arrive in time, it returns that `version`.
-/

set_option autoImplicit false

namespace BitcoinNodeTests

open Foundation

/-- `btclib.p2p.Version`, made of the services and a nonce with this suite's own user agent. -/
structure Versions (ν : Type) where
  payload : Nat → Nat → List Octet
  parse : List Octet → Option ν

/-- The side that dialled, and `handshake`'s own arguments. -/
structure Greeting where
  dialled : Bool
  services : Nat
  addrv2 : Bool
  wtxidrelay : Bool

namespace Endpoint

variable {σ ν : Type} (pings : Pings) (versions : Versions ν) (endpoint : Endpoint σ)

def handshake (greeting : Greeting) (turns : Nat) : Action σ WaitRaised ν := do
  let nonce ← lift (endpoint.randbelow (2 ^ 64))
  let version := versions.payload greeting.services nonce
  let message ←
    if greeting.dialled then do
      lift (endpoint.send "version" version)
      endpoint.waitFor pings "version" none none turns
    else do
      let message ← endpoint.waitFor pings "version" none none turns
      lift (endpoint.send "version" version)
      pure message
  if greeting.wtxidrelay then lift (endpoint.send "wtxidrelay" []) else pure ()
  if greeting.addrv2 then lift (endpoint.send "sendaddrv2" []) else pure ()
  lift (endpoint.send "verack" [])
  let _ ← endpoint.waitFor pings "verack" none none turns
  match versions.parse message.payload with
  | some version => pure version
  | none => Action.raise (.raised .btclibValueError)

end Endpoint

/-! ## A script -/

/-- What one side does next: send a message, or wait for a command. -/
inductive Part where
  | say (command : String) (payload : List Octet)
  | hear (command : String)
  deriving DecidableEq, Repr

def saying (lines : List (String × List Octet)) : List Part :=
  lines.map fun line => .say line.1 line.2

namespace Endpoint

variable {σ : Type} (pings : Pings) (endpoint : Endpoint σ)

/-- The parts one after another, and the messages the waits among them returned. -/
def perform (turns : Nat) : List Part → Action σ WaitRaised (List Message)
  | [] => pure []
  | .say command payload :: rest => do
      lift (endpoint.send command payload)
      perform turns rest
  | .hear command :: rest => do
      let message ← endpoint.waitFor pings command none none turns
      let messages ← perform turns rest
      pure (message :: messages)

end Endpoint

namespace Greeting

/-- What follows both `version`s. -/
def features (greeting : Greeting) : List (String × List Octet) :=
  (if greeting.wtxidrelay then [("wtxidrelay", [])] else []) ++
    (if greeting.addrv2 then [("sendaddrv2", [])] else []) ++ [("verack", [])]

def lines (greeting : Greeting) (version : List Octet) : List (String × List Octet) :=
  ("version", version) :: greeting.features

def script (greeting : Greeting) (version : List Octet) : List Part :=
  (if greeting.dialled then [.say "version" version, .hear "version"]
    else [.hear "version", .say "version" version]) ++
    saying greeting.features ++ [.hear "verack"]

end Greeting

namespace Endpoint

variable {σ ν : Type} {pings : Pings} {endpoint : Endpoint σ}

/-- The handshake plays its script, and parses what the first wait returned. -/
theorem handshake_eq (versions : Versions ν) (greeting : Greeting) (turns : Nat) :
    endpoint.handshake pings versions greeting turns =
      (lift (endpoint.randbelow (2 ^ 64)) >>= fun nonce => do
        let messages ← endpoint.perform pings turns
          (greeting.script (versions.payload greeting.services nonce))
        match messages.head?.bind fun message => versions.parse message.payload with
        | some version => pure version
        | none => Action.raise (.raised .btclibValueError)) := by
  have lawful : LawfulMonad (Action σ WaitRaised) := Action.lawful
  obtain ⟨dialled, services, addrv2, wtxidrelay⟩ := greeting
  cases dialled <;> cases addrv2 <;> cases wtxidrelay <;>
    simp [handshake, perform, saying, Greeting.script, Greeting.features]

end Endpoint

/-! ## What is said and heard -/

/-- A message sent whole, or one received. -/
inductive PeerEvent where
  | said (command : String) (payload : List Octet)
  | heard (message : Message)
  deriving DecidableEq, Repr

def Endpoint.logged {σ : Type} (endpoint : Endpoint σ) : Endpoint (σ × List PeerEvent) where
  receive remaining := fun (state, log) =>
    match endpoint.receive remaining state with
    | (.ok message, reached) => (.ok message, reached, log ++ [.heard message])
    | (.error error, reached) => (.error error, reached, log)
  send command payload := fun (state, log) =>
    match endpoint.send command payload state with
    | (.ok (), reached) => (.ok (), reached, log ++ [.said command payload])
    | (.error error, reached) => (.error error, reached, log)
  monotonic := Action.onPart Prod.fst (fun state noted => (state, noted.2)) endpoint.monotonic
  randbelow bound :=
    Action.onPart Prod.fst (fun state noted => (state, noted.2)) (endpoint.randbelow bound)
  timeout := endpoint.timeout
  scaled := endpoint.scaled

/-- Messages of other commands, each ping among them answered at once. -/
inductive Skimmed (pings : Pings) (command : String) : List PeerEvent → Prop where
  | nothing : Skimmed pings command []
  | dropped {message : Message} {events : List PeerEvent} (other : message.command ≠ command)
      (noPing : message.command ≠ "ping") (rest : Skimmed pings command events) :
      Skimmed pings command (.heard message :: events)
  | answered {message : Message} {nonce : UInt64} {events : List PeerEvent}
      (other : message.command ≠ command) (isPing : message.command = "ping")
      (parses : pings.parsePing message.payload = some nonce)
      (rest : Skimmed pings command events) :
      Skimmed pings command (.heard message :: .said "pong" (pings.pong nonce) :: events)

/-- What is said and heard of a script, and what its waits returned where it was played to its
end: a part may fail where it comes to, a wait also at a ping it could not answer. -/
inductive Played (pings : Pings) : List Part → Option (List Message) → List PeerEvent → Prop where
  | ended : Played pings [] (some []) []
  | said {command : String} {payload : List Octet} {rest : List Part}
      {found : Option (List Message)} {events : List PeerEvent}
      (later : Played pings rest found events) :
      Played pings (.say command payload :: rest) found (.said command payload :: events)
  | unsaid {command : String} {payload : List Octet} {rest : List Part} :
      Played pings (.say command payload :: rest) none []
  | heard {message : Message} {rest : List Part} {found : Option (List Message)}
      {skim events : List PeerEvent} (skimmed : Skimmed pings message.command skim)
      (later : Played pings rest found events) :
      Played pings (.hear message.command :: rest) (found.map (message :: ·))
        (skim ++ .heard message :: events)
  | unheard {command : String} {rest : List Part} {skim : List PeerEvent}
      (skimmed : Skimmed pings command skim) : Played pings (.hear command :: rest) none skim
  | unanswered {command : String} {rest : List Part} {skim : List PeerEvent} {message : Message}
      (skimmed : Skimmed pings command skim) (isPing : message.command = "ping") :
      Played pings (.hear command :: rest) none (skim ++ [.heard message])

section Logged

variable {σ : Type} {pings : Pings} {endpoint : Endpoint σ}

/-- What a wait may have heard when it ends, and what it returns. -/
inductive Awaited (pings : Pings) (command : String) :
    Except WaitRaised Message → List PeerEvent → Prop where
  | found {message : Message} {skim : List PeerEvent} (skimmed : Skimmed pings command skim)
      (wanted : message.command = command) :
      Awaited pings command (.ok message) (skim ++ [.heard message])
  | raised {error : WaitRaised} {skim : List PeerEvent} (skimmed : Skimmed pings command skim) :
      Awaited pings command (.error error) skim
  | unanswered {error : WaitRaised} {message : Message} {skim : List PeerEvent}
      (skimmed : Skimmed pings command skim) (isPing : message.command = "ping") :
      Awaited pings command (.error error) (skim ++ [.heard message])

/-- A message that is skimmed comes ahead of what a wait hears after it. -/
theorem Awaited.after {command : String} {result : Except WaitRaised Message}
    {first later : List PeerEvent} (awaited : Awaited pings command result later)
    (grows : ∀ skim, Skimmed pings command skim → Skimmed pings command (first ++ skim)) :
    Awaited pings command result (first ++ later) := by
  cases awaited with
  | found skimmed wanted =>
      rw [← List.append_assoc]
      exact .found (grows _ skimmed) wanted
  | raised skimmed => exact .raised (grows _ skimmed)
  | unanswered skimmed isPing =>
      rw [← List.append_assoc]
      exact .unanswered (grows _ skimmed) isPing

theorem logged_send (command : String) (payload : List Octet) (state : σ) (log : List PeerEvent) :
    (∃ reached, Endpoint.lift (endpoint.logged.send command payload) (state, log) =
        (.ok (), reached, log ++ [.said command payload])) ∨
      ∃ error reached, Endpoint.lift (endpoint.logged.send command payload) (state, log) =
        (.error error, reached, log) := by
  rcases sends : endpoint.send command payload state with ⟨error | ⟨⟩, reached⟩
  · exact .inr ⟨.raised error, reached, by simp [Endpoint.lift, Endpoint.logged, sends]⟩
  · exact .inl ⟨reached, by simp [Endpoint.lift, Endpoint.logged, sends]⟩

theorem logged_onPart {α : Type} (action : Action σ Raised α) (state : σ)
    (log : List PeerEvent) :
    ∃ result reached, Endpoint.lift (Action.onPart Prod.fst
      (fun state (noted : σ × List PeerEvent) => (state, noted.2)) action) (state, log) =
        (result, reached, log) := by
  rcases acts : action state with ⟨error | value, reached⟩
  · exact ⟨.error (.raised error), reached, by simp [Endpoint.lift, Action.onPart_apply, acts]⟩
  · exact ⟨.ok value, reached, by simp [Endpoint.lift, Action.onPart_apply, acts]⟩

theorem logged_receiveWithin (remaining : Int) (state : σ) (log : List PeerEvent) :
    (∃ message reached, endpoint.logged.receiveWithin remaining (state, log) =
        (.ok (some message), reached, log ++ [.heard message])) ∨
      ∃ result reached, endpoint.logged.receiveWithin remaining (state, log) =
        (result, reached, log) ∧ ∀ message, result ≠ .ok (some message) := by
  rcases receives : endpoint.receive remaining state with ⟨error | message, reached⟩
  · cases error with
    | timeoutError =>
        exact .inr ⟨.ok none, reached, by
          simp [Endpoint.receiveWithin, Endpoint.logged, receives]⟩
    | _ =>
        exact .inr ⟨_, reached, by
          simp [Endpoint.receiveWithin, Endpoint.logged, receives]
          rfl, by simp⟩
  · exact .inl ⟨message, reached, by
      simp [Endpoint.receiveWithin, Endpoint.logged, receives]⟩

/-- A wait skims what comes before the message it returns, or raises. -/
theorem waitUntil_logged {command : String} (noPing : command ≠ "ping") (deadline : Int)
    (turns : Nat) : ∀ state log, ∃ events result reached,
      endpoint.logged.waitUntil pings command none deadline turns (state, log) =
        (result, reached, log ++ events) ∧ Awaited pings command result events := by
  induction turns with
  | zero =>
      intro state log
      exact ⟨[], _, state, by rw [List.append_nil]; rfl, .raised .nothing⟩
  | succ turns ih =>
      intro state log
      obtain ⟨clocked, ticked, reads⟩ := logged_onPart endpoint.monotonic state log
      rw [Endpoint.waitUntil, Action.bind_apply]
      rw [show Endpoint.lift endpoint.logged.monotonic (state, log) = (clocked, ticked, log)
        from reads]
      rcases clocked with error | time
      · exact ⟨[], .error error, ticked, by rw [List.append_nil], .raised .nothing⟩
      by_cases late : deadline - time ≤ 0
      · simp only [if_pos late]
        exact ⟨[], _, ticked, by rw [List.append_nil]; rfl, .raised .nothing⟩
      simp only [if_neg late]
      rw [Action.bind_apply]
      rcases @logged_receiveWithin _ endpoint (deadline - time) ticked log with
        ⟨message, reached, receives⟩ | ⟨result, reached, receives, nothing⟩
      · rw [receives]
        simp only
        rw [Action.bind_apply, Endpoint.answerPing, Endpoint.awaited]
        by_cases isPing : message.command = "ping"
        · -- a ping is not what is waited for: the wait goes on once it is answered
          have other : message.command ≠ command := fun same => noPing (same ▸ isPing)
          simp only [if_pos isPing, if_neg other]
          cases parses : pings.parsePing message.payload with
          | none =>
              exact ⟨[.heard message], _, reached, rfl,
                @Awaited.unanswered _ _ _ _ [] .nothing isPing⟩
          | some nonce =>
              rcases @logged_send _ endpoint "pong" (pings.pong nonce) reached
                (log ++ [.heard message]) with ⟨answered, sends⟩ | ⟨error, answered, sends⟩
              · simp only [sends]
                obtain ⟨events, result, final, waits, awaited⟩ :=
                  ih answered (log ++ [.heard message] ++ [.said "pong" (pings.pong nonce)])
                refine ⟨.heard message :: .said "pong" (pings.pong nonce) :: events, result, final,
                  ?_, ?_⟩
                · rw [waits]
                  simp
                · exact @Awaited.after _ _ _ [.heard message, .said "pong" (pings.pong nonce)] _
                    awaited fun skim skimmed => .answered other isPing parses skimmed
              · simp only [sends]
                exact ⟨[.heard message], _, answered, rfl,
                  @Awaited.unanswered _ _ _ _ [] .nothing isPing⟩
        · simp only [if_neg isPing, Action.pure_apply]
          by_cases wanted : message.command = command
          · simp only [if_pos wanted]
            exact ⟨[.heard message], _, reached, rfl, @Awaited.found _ _ _ [] .nothing wanted⟩
          · simp only [if_neg wanted]
            obtain ⟨events, result, final, waits, awaited⟩ := ih reached (log ++ [.heard message])
            refine ⟨.heard message :: events, result, final, ?_, ?_⟩
            · rw [waits]
              simp
            · exact @Awaited.after _ _ _ [.heard message] _ awaited
                fun skim skimmed => .dropped wanted isPing skimmed
      · rw [receives]
        rcases result with error | (_ | message)
        · exact ⟨[], .error error, reached, by rw [List.append_nil], .raised .nothing⟩
        · exact ⟨[], _, reached, by rw [List.append_nil]; rfl, .raised .nothing⟩
        · exact absurd rfl (nothing message)

theorem waitFor_logged {command : String} (noPing : command ≠ "ping") (timeout : Option Int)
    (turns : Nat) (state : σ) (log : List PeerEvent) : ∃ events result reached,
      endpoint.logged.waitFor pings command none timeout turns (state, log) =
        (result, reached, log ++ events) ∧ Awaited pings command result events := by
  obtain ⟨clocked, ticked, reads⟩ := logged_onPart endpoint.monotonic state log
  unfold Endpoint.waitFor
  rw [Action.bind_apply]
  rw [show Endpoint.lift endpoint.logged.monotonic (state, log) = (clocked, ticked, log)
    from reads]
  rcases clocked with error | time
  · exact ⟨[], .error error, ticked, by rw [List.append_nil], .raised .nothing⟩
  · exact waitUntil_logged noPing _ turns ticked log

/-- A script's parts are played one after another, up to the first that raises. -/
theorem perform_logged (turns : Nat) (script : List Part)
    (noPings : ∀ command, .hear command ∈ script → command ≠ "ping") : ∀ state log,
    ∃ events result reached, endpoint.logged.perform pings turns script (state, log) =
      (result, reached, log ++ events) ∧ Played pings script result.toOption events := by
  induction script with
  | nil =>
      intro state log
      exact ⟨[], .ok [], state, by rw [List.append_nil]; rfl, .ended⟩
  | cons part rest ih =>
      intro state log
      have later := ih fun command member => noPings command (List.mem_cons_of_mem _ member)
      cases part with
      | say command payload =>
          rw [Endpoint.perform, Action.bind_apply]
          rcases @logged_send _ endpoint command payload state log with
            ⟨reached, sends⟩ | ⟨error, reached, sends⟩
          · obtain ⟨events, result, final, plays, played⟩ :=
              later reached (log ++ [.said command payload])
            refine ⟨.said command payload :: events, result, final, ?_, .said played⟩
            simp [sends, plays]
          · exact ⟨[], .error error, reached, by simp [sends], .unsaid⟩
      | hear command =>
          have noPing := noPings command List.mem_cons_self
          rw [Endpoint.perform, Action.bind_apply]
          obtain ⟨heard, result, reached, waits, awaited⟩ :=
            @waitFor_logged _ _ endpoint _ noPing none turns state log
          rw [waits]
          cases awaited with
          | @found message skim skimmed wanted =>
              subst wanted
              obtain ⟨events, result, final, plays, played⟩ :=
                later reached (log ++ (skim ++ [.heard message]))
              refine ⟨skim ++ .heard message :: events, result.map (message :: ·), final, ?_, ?_⟩
              · simp only [Action.bind_apply, plays]
                rcases result with error | messages
                · simp [Except.map]
                · simp [Except.map]
              · have whole := Played.heard skimmed played
                rcases result with error | messages
                · exact whole
                · exact whole
          | @raised error skim skimmed => exact ⟨heard, _, reached, rfl, .unheard skimmed⟩
          | @unanswered error message skim skimmed isPing =>
              exact ⟨_, _, reached, rfl, .unanswered skimmed isPing⟩

end Logged

/-! ## The order of a handshake -/

def spoken (events : List PeerEvent) : List (String × List Octet) :=
  events.filterMap fun
    | .said command payload => if command = "pong" then none else some (command, payload)
    | .heard _ => none

def pongs (events : List PeerEvent) : List (List Octet) :=
  events.filterMap fun
    | .said command payload => if command = "pong" then some payload else none
    | .heard _ => none

def hearings (events : List PeerEvent) : List Message :=
  events.filterMap fun
    | .said _ _ => none
    | .heard message => some message

def asked (pings : Pings) (events : List PeerEvent) : List (List Octet) :=
  ((hearings events).filter fun message => message.command = "ping").filterMap fun message =>
    (pings.parsePing message.payload).map pings.pong

def saysOf (script : List Part) : List (String × List Octet) :=
  script.filterMap fun
    | .say command payload => some (command, payload)
    | .hear _ => none

section Facts

variable {pings : Pings} {script : List Part} {found : Option (List Message)}
  {events : List PeerEvent}

theorem Skimmed.spoken_eq {command : String} (skimmed : Skimmed pings command events) :
    spoken events = [] := by
  induction skimmed with
  | nothing => rfl
  | dropped _ _ _ ih => simpa [spoken] using ih
  | answered _ _ _ _ ih => simpa [spoken] using ih

theorem Skimmed.pongs_eq {command : String} (skimmed : Skimmed pings command events) :
    pongs events = asked pings events := by
  induction skimmed with
  | nothing => rfl
  | dropped _ noPing _ ih =>
      simpa [pongs, asked, hearings, noPing] using ih
  | answered _ isPing parses _ ih =>
      simpa [pongs, asked, hearings, isPing, parses] using ih

theorem Skimmed.hearings_other {command : String} (skimmed : Skimmed pings command events) :
    ∀ message ∈ hearings events, message.command ≠ command := by
  induction skimmed with
  | nothing => simp [hearings]
  | dropped other _ _ ih => exact List.forall_mem_cons.mpr ⟨other, ih⟩
  | answered other _ _ _ ih => exact List.forall_mem_cons.mpr ⟨other, ih⟩

theorem spoken_append (first second : List PeerEvent) :
    spoken (first ++ second) = spoken first ++ spoken second := List.filterMap_append

theorem pongs_append (first second : List PeerEvent) :
    pongs (first ++ second) = pongs first ++ pongs second := List.filterMap_append

theorem hearings_append (first second : List PeerEvent) :
    hearings (first ++ second) = hearings first ++ hearings second := List.filterMap_append

theorem asked_append (first second : List PeerEvent) :
    asked pings (first ++ second) = asked pings first ++ asked pings second := by
  rw [asked, hearings_append, List.filter_append, List.filterMap_append]
  rfl

/-- A script is said from its start on, whole where it is played to its end. -/
theorem Played.spoken_prefix (played : Played pings script found events)
    (noPongs : ∀ command payload, .say command payload ∈ script → command ≠ "pong") :
    spoken events <+: saysOf script ∧ (found.isSome → spoken events = saysOf script) := by
  induction played with
  | ended => exact ⟨List.prefix_rfl, fun _ => rfl⟩
  | @said command payload rest found events later ih =>
      obtain ⟨first, whole⟩ := ih fun command payload member =>
        noPongs command payload (List.mem_cons_of_mem _ member)
      have noPong := noPongs command payload List.mem_cons_self
      have now : spoken (.said command payload :: events) =
          (command, payload) :: spoken events := by
        simp [spoken, noPong]
      rw [now]
      exact ⟨List.prefix_cons_inj _ |>.mpr first, fun ends => congrArg _ (whole ends)⟩
  | unsaid => exact ⟨List.nil_prefix, fun ends => by cases ends⟩
  | @heard message rest found skim events skimmed later ih =>
      obtain ⟨first, whole⟩ := ih fun command payload member =>
        noPongs command payload (List.mem_cons_of_mem _ member)
      rw [spoken_append, skimmed.spoken_eq]
      refine ⟨first, fun ends => whole ?_⟩
      cases found with
      | none => cases ends
      | some messages => rfl
  | unheard skimmed =>
      rw [skimmed.spoken_eq]
      exact ⟨List.nil_prefix, fun ends => by cases ends⟩
  | unanswered skimmed _ =>
      rw [spoken_append, skimmed.spoken_eq]
      exact ⟨List.nil_prefix, fun ends => by cases ends⟩

/-- Each ping heard is answered, but for the last where that raised. -/
theorem Played.pongs_prefix (played : Played pings script found events)
    (noPongs : ∀ command payload, .say command payload ∈ script → command ≠ "pong")
    (noPings : ∀ command, .hear command ∈ script → command ≠ "ping") :
    pongs events <+: asked pings events ∧ (found.isSome → pongs events = asked pings events) := by
  induction played with
  | ended => exact ⟨List.prefix_rfl, fun _ => rfl⟩
  | @said command payload rest found events later ih =>
      obtain ⟨first, whole⟩ := ih
        (fun command payload member => noPongs command payload (List.mem_cons_of_mem _ member))
        fun command member => noPings command (List.mem_cons_of_mem _ member)
      have noPong := noPongs command payload List.mem_cons_self
      have now : pongs (.said command payload :: events) =
          pongs events := by
        simp [pongs, noPong]
      rw [now]
      exact ⟨first, whole⟩
  | unsaid => exact ⟨List.nil_prefix, fun ends => by cases ends⟩
  | @heard message rest found skim events skimmed later ih =>
      obtain ⟨first, whole⟩ := ih
        (fun command payload member => noPongs command payload (List.mem_cons_of_mem _ member))
        fun command member => noPings command (List.mem_cons_of_mem _ member)
      have noPing := noPings message.command List.mem_cons_self
      have now : asked pings (.heard message :: events) = asked pings events := by
        simp [asked, hearings, noPing]
      rw [pongs_append, asked_append, skimmed.pongs_eq, now]
      refine ⟨(List.prefix_append_right_inj _).mpr first, fun ends => ?_⟩
      cases found with
      | none => cases ends
      | some messages => exact congrArg _ (whole rfl)
  | unheard skimmed =>
      rw [skimmed.pongs_eq]
      exact ⟨List.prefix_rfl, fun ends => by cases ends⟩
  | unanswered skimmed _ =>
      rw [pongs_append, asked_append, skimmed.pongs_eq]
      exact ⟨(List.prefix_append_right_inj _).mpr List.nil_prefix, fun ends => by cases ends⟩

/-- Nothing but a pong is said behind a wait before what it waits for was heard. -/
theorem Played.after {command : String} {rest : List Part}
    (played : Played pings (.hear command :: rest) found events)
    {before after : List PeerEvent} {line : String} {payload : List Octet}
    (split : events = before ++ .said line payload :: after) (noPong : line ≠ "pong") :
    ∃ message, .heard message ∈ before ∧ message.command = command := by
  have unspoken : ∀ {skim : List PeerEvent}, Skimmed pings command skim →
      .said line payload ∉ skim := by
    intro skim skimmed member
    have among : (line, payload) ∈ spoken skim :=
      List.mem_filterMap.mpr ⟨_, member, by simp [noPong]⟩
    rw [skimmed.spoken_eq] at among
    cases among
  have here : .said line payload ∈ before ++ .said line payload :: after :=
    List.mem_append_right _ List.mem_cons_self
  cases played with
  | @heard message _ found skim events skimmed later =>
      refine ⟨message, ?_, rfl⟩
      rcases List.append_eq_append_iff.mp split with ⟨gap, more, rest⟩ | ⟨gap, more, rest⟩
      · rw [more]
        cases gap with
        | nil => cases rest
        | cons event gap =>
            rw [List.cons_append] at rest
            rw [(List.cons.inj rest).1]
            exact List.mem_append_right _ List.mem_cons_self
      · cases gap with
        | nil => cases rest
        | cons event gap =>
            rw [List.cons_append] at rest
            have inSkim : event ∈ skim := more ▸ List.mem_append_right _ List.mem_cons_self
            rw [← (List.cons.inj rest).1] at inSkim
            exact absurd inSkim (unspoken skimmed)
  | unheard skimmed => exact absurd (split ▸ here) (unspoken skimmed)
  | unanswered skimmed _ =>
      rw [← split] at here
      rcases List.mem_append.mp here with among | last
      · exact absurd among (unspoken skimmed)
      · cases List.mem_singleton.mp last

/-- A wait that returned heard what it returned, behind what it skimmed. -/
theorem Played.hear_some {command : String} {rest : List Part} {messages : List Message}
    (played : Played pings (.hear command :: rest) (some messages) events) :
    ∃ skim first later tail, Skimmed pings command skim ∧ first.command = command ∧
      events = skim ++ .heard first :: later ∧ messages = first :: tail ∧
      Played pings rest (some tail) later := by
  generalize whole : some messages = found at played
  cases played with
  | @heard message _ found skim later skimmed played =>
      cases found with
      | none => cases whole
      | some tail =>
          exact ⟨skim, message, later, tail, skimmed, rfl, rfl, Option.some.inj whole, played⟩
  | unheard skimmed => cases whole
  | unanswered skimmed _ => cases whole

theorem Played.says_some {rest : List Part} {messages : List Message}
    (lines : List (String × List Octet)) : ∀ {events : List PeerEvent},
    Played pings (saying lines ++ rest) (some messages) events →
    ∃ later, hearings events = hearings later ∧ Played pings rest (some messages) later := by
  induction lines with
  | nil => exact fun played => ⟨_, rfl, played⟩
  | cons line lines ih =>
      intro events played
      generalize whole : some messages = found at played
      cases played with
      | @said _ _ _ _ later played =>
          subst whole
          obtain ⟨last, same, played⟩ := ih played
          exact ⟨last, same, played⟩
      | unsaid => cases whole

end Facts

section Handshakes

variable {σ ν : Type} {pings : Pings} {versions : Versions ν} {endpoint : Endpoint σ}
  {greeting : Greeting} {version : List Octet}

theorem Greeting.mem_features {line : String × List Octet} (member : line ∈ greeting.features) :
    line.1 ∈ ["wtxidrelay", "sendaddrv2", "verack"] := by
  obtain ⟨dialled, services, addrv2, wtxidrelay⟩ := greeting
  cases addrv2 <;> cases wtxidrelay <;> simp [Greeting.features] at member ⊢ <;> grind

theorem Greeting.script_noPongs {command : String} {payload : List Octet}
    (member : .say command payload ∈ greeting.script version) : command ≠ "pong" := by
  rw [Greeting.script, List.append_assoc] at member
  rcases List.mem_append.mp member with opening | later
  · split at opening
    · simp only [List.mem_cons, Part.say.injEq, reduceCtorEq, List.not_mem_nil, or_false] at opening
      rw [opening.1]
      decide
    · simp only [List.mem_cons, Part.say.injEq, reduceCtorEq, List.not_mem_nil, or_false,
        false_or] at opening
      rw [opening.1]
      decide
  · rcases List.mem_append.mp later with feature | last
    · obtain ⟨line, among, same⟩ := List.mem_map.mp feature
      have known := Greeting.mem_features among
      rw [(Part.say.inj same).1] at known
      rintro rfl
      simp at known
    · simp at last

theorem Greeting.script_noPings {command : String}
    (member : .hear command ∈ greeting.script version) : command ≠ "ping" := by
  rw [Greeting.script, List.append_assoc] at member
  rcases List.mem_append.mp member with opening | later
  · split at opening
    · simp only [List.mem_cons, Part.hear.injEq, reduceCtorEq, List.not_mem_nil, or_false,
        false_or] at opening
      rw [opening]
      decide
    · simp only [List.mem_cons, Part.hear.injEq, reduceCtorEq, List.not_mem_nil, or_false]
        at opening
      rw [opening]
      decide
  · simp only [saying, List.mem_append, List.mem_map, reduceCtorEq, and_false, exists_false, false_or,
      List.mem_singleton, Part.hear.injEq] at later
    rw [later]
    decide

theorem Greeting.saysOf_script :
    saysOf (greeting.script version) = greeting.lines version := by
  obtain ⟨dialled, services, addrv2, wtxidrelay⟩ := greeting
  cases dialled <;> cases addrv2 <;> cases wtxidrelay <;> rfl

/-- The first message of a handshake is said by the side that dialled, and each of the others
behind the other side's `version`. -/
theorem Greeting.script_order {found : Option (List Message)} {events : List PeerEvent}
    (played : Played pings (greeting.script version) found events)
    {before after : List PeerEvent} {command : String} {payload : List Octet}
    (split : events = before ++ .said command payload :: after) (noPong : command ≠ "pong") :
    (greeting.dialled = true ∧ command = "version" ∧ before = []) ∨
      ∃ message, .heard message ∈ before ∧ message.command = "version" := by
  rw [Greeting.script] at played
  cases dialled : greeting.dialled with
  | false =>
      rw [if_neg (by simp [dialled])] at played
      exact .inr (played.after split noPong)
  | true =>
      rw [if_pos dialled] at played
      cases played with
      | @said _ _ _ _ later played =>
          cases before with
          | nil =>
              obtain ⟨same, -⟩ := List.cons.inj split
              exact .inl ⟨rfl, (PeerEvent.said.inj same).1.symm, rfl⟩
          | cons event before =>
              obtain ⟨-, split⟩ := List.cons.inj split
              obtain ⟨message, member, named⟩ := Played.after played split noPong
              exact .inr ⟨message, List.mem_cons_of_mem _ member, named⟩
      | unsaid =>
          have none : (before ++ .said command payload :: after).length = 0 :=
            congrArg List.length split.symm
          simp at none

/-- A handshake played to its end heard the other side's `version`, and later its `verack`. -/
theorem Greeting.script_hearings {messages : List Message} {events : List PeerEvent}
    (played : Played pings (greeting.script version) (some messages) events) :
    ∃ dropped first between last, hearings events = dropped ++ first :: between ++ [last] ∧
      (∀ message ∈ dropped, message.command ≠ "version") ∧ first.command = "version" ∧
      (∀ message ∈ between, message.command ≠ "verack") ∧ last.command = "verack" ∧
      messages.head? = some first := by
  obtain ⟨lines, heard, same, played⟩ : ∃ lines heard, hearings events = hearings heard ∧
      Played pings (.hear "version" :: (saying lines ++ [.hear "verack"])) (some messages)
        heard := by
    rw [Greeting.script, List.append_assoc] at played
    split at played
    · obtain ⟨later, same, played⟩ := Played.says_some [("version", version)] played
      exact ⟨greeting.features, later, same, played⟩
    · exact ⟨("version", version) :: greeting.features, events, rfl, played⟩
  obtain ⟨skim, first, later, tail, skimmed, named, rfl, rfl, next⟩ := played.hear_some
  obtain ⟨waiting, quiet, next⟩ := Played.says_some lines next
  obtain ⟨skim', last, ending, tail', skimmed', named', rfl, rfl, finished⟩ := next.hear_some
  cases finished
  refine ⟨hearings skim, first, hearings skim', last, ?_, skimmed.hearings_other, named,
    skimmed'.hearings_other, named', rfl⟩
  rw [same, hearings_append, show hearings (.heard first :: later) = first :: hearings later
    from rfl, quiet, hearings_append]
  simp [hearings]

/-- However a handshake ends, on any connection and whatever comes on it: what it sent beside its
pongs is a start of its own lines, in their order; the dialling side's first message aside, each
came after a `version` was received; and each pong answers a ping.  One that returns sent all of
them, answered every ping, and returns the first `version` received, a `verack` having come after
it. -/
theorem handshake_orders {turns : Nat} {state reached : σ} {log final : List PeerEvent}
    {result : Except WaitRaised ν}
    (run : endpoint.logged.handshake pings versions greeting turns (state, log) =
      (result, reached, final)) :
    ∃ events nonce, final = log ++ events ∧
      spoken events <+: greeting.lines (versions.payload greeting.services nonce) ∧
      (∀ before command payload after, events = before ++ .said command payload :: after →
        command ≠ "pong" →
        (greeting.dialled = true ∧ command = "version" ∧ before = []) ∨
          ∃ message, .heard message ∈ before ∧ message.command = "version") ∧
      pongs events <+: asked pings events ∧
      ∀ version, result = .ok version →
        spoken events = greeting.lines (versions.payload greeting.services nonce) ∧
        pongs events = asked pings events ∧
        ∃ dropped first between last, hearings events = dropped ++ first :: between ++ [last] ∧
          (∀ message ∈ dropped, message.command ≠ "version") ∧ first.command = "version" ∧
          (∀ message ∈ between, message.command ≠ "verack") ∧ last.command = "verack" ∧
          versions.parse first.payload = some version := by
  rw [Endpoint.handshake_eq, Action.bind_apply] at run
  obtain ⟨drawn, drew, draws⟩ := logged_onPart (endpoint.randbelow (2 ^ 64)) state log
  rw [show Endpoint.lift (endpoint.logged.randbelow (2 ^ 64)) (state, log) = (drawn, drew, log)
    from draws] at run
  rcases drawn with error | nonce
  · cases run
    exact ⟨[], 0, (List.append_nil _).symm, List.nil_prefix, by simp, List.nil_prefix, by simp⟩
  obtain ⟨events, messages, played, performs, isPlayed⟩ := @perform_logged _ pings endpoint turns
    (greeting.script (versions.payload greeting.services nonce))
    (fun _ member => Greeting.script_noPings member) drew log
  have noPongs : ∀ command payload,
      .say command payload ∈ greeting.script (versions.payload greeting.services nonce) →
        command ≠ "pong" := fun _ _ member => Greeting.script_noPongs member
  obtain ⟨lines, allLines⟩ := isPlayed.spoken_prefix noPongs
  obtain ⟨answers, allAnswers⟩ := isPlayed.pongs_prefix noPongs
    fun _ member => Greeting.script_noPings member
  rw [Greeting.saysOf_script] at lines allLines
  simp only [Action.bind_apply, performs] at run
  refine ⟨events, nonce, ?_, lines, fun before command payload after split noPong =>
    Greeting.script_order isPlayed split noPong, answers, ?_⟩
  · rcases messages with error | messages
    · cases run
      rfl
    · cases parsed : messages.head?.bind fun message => versions.parse message.payload with
      | none =>
          simp only [parsed] at run
          cases run
          rfl
      | some version =>
          simp only [parsed] at run
          cases run
          rfl
  · rintro version rfl
    rcases messages with error | messages
    · cases run
    obtain ⟨dropped, first, between, last, heard, others, named, more, ended, head⟩ :=
      Greeting.script_hearings isPlayed
    refine ⟨allLines rfl, allAnswers rfl, dropped, first, between, last, heard, others, named,
      more, ended, ?_⟩
    simp only [head, Option.bind_some] at run
    cases parsed : versions.parse first.payload with
    | none =>
        simp only [parsed] at run
        cases run
    | some other =>
        simp only [parsed] at run
        cases run
        rfl

end Handshakes

def deliveries : Endpoint (List Message) where
  receive _
    | [] => (.error .timeoutError, [])
    | message :: rest => (.ok message, rest)
  send _ _ := pure ()
  monotonic := pure 0
  randbelow _ := pure 7
  timeout := 60
  scaled := id

def plainVersions : Versions UInt64 where
  payload _ nonce := Link.nonceOctets (UInt64.ofNat nonce)
  parse := Link.parseNonce

def dialledBack : List Message :=
  [⟨[], "ping", Link.nonceOctets 5⟩, ⟨[], "version", Link.nonceOctets 9⟩, ⟨[], "verack", []⟩]

theorem handshake_orders_dialledBack : ∃ reached events,
    deliveries.logged.handshake Link.plainPings plainVersions ⟨false, 9, true, true⟩ 4
      (dialledBack, []) = (.ok 9, reached, events) ∧
    spoken events = [("version", Link.nonceOctets 7), ("wtxidrelay", []), ("sendaddrv2", []),
      ("verack", [])] := by
  have returns : (deliveries.logged.handshake Link.plainPings plainVersions
      ⟨false, 9, true, true⟩ 4 (dialledBack, [])).1 = .ok 9 := by decide +kernel
  obtain ⟨⟨reached, events⟩, run⟩ := Action.run_of_result returns
  obtain ⟨events', nonce, log, -, -, -, whole⟩ := handshake_orders run
  obtain ⟨lines, -⟩ := whole 9 rfl
  rw [List.nil_append] at log
  subst log
  refine ⟨reached, events, run, ?_⟩
  have noted : (deliveries.logged.handshake Link.plainPings plainVersions
      ⟨false, 9, true, true⟩ 4 (dialledBack, [])).2.2 = events := by rw [run]
  rw [← noted]
  decide +kernel

/-! ## On octets -/

section Delivered

open Waiter (Run)

variable {σ ν : Type} {pings : Pings} {wire : Wire} {timeout : Int} {scaled : Int → Int}

theorem waitUntil_draws (endpoint : Endpoint σ) (draws : Nat → Action σ Raised Nat)
    (command : String) (deadline : Int) (turns : Nat) :
    ({ endpoint with randbelow := draws } : Endpoint σ).waitUntil pings command none deadline
        turns = endpoint.waitUntil pings command none deadline turns := by
  induction turns with
  | zero => rfl
  | succ turns ih =>
      rw [Endpoint.waitUntil, Endpoint.waitUntil, ih]
      rfl

theorem perform_draws (endpoint : Endpoint σ) (draws : Nat → Action σ Raised Nat) (turns : Nat)
    (script : List Part) :
    ({ endpoint with randbelow := draws } : Endpoint σ).perform pings turns script =
      endpoint.perform pings turns script := by
  induction script with
  | nil => rfl
  | cons part rest ih =>
      cases part with
      | say command payload =>
          rw [Endpoint.perform, Endpoint.perform, ih]
      | hear command =>
          rw [Endpoint.perform, Endpoint.perform, ih]
          unfold Endpoint.waitFor
          simp only [waitUntil_draws]

def Waiter.greeter (wire : Wire) (timeout : Int) (scaled : Int → Int) (secret : Nat) :
    Endpoint Waiter :=
  { Waiter.endpoint wire timeout scaled with randbelow := fun bound => pure (secret % bound) }

/-- The calls of `wait_for` that a script makes. -/
def waitsOf : List Part → List Wait
  | [] => []
  | .say _ _ :: rest => waitsOf rest
  | .hear command :: rest => ⟨command, none, none⟩ :: waitsOf rest

/-- What each wait of a script consumes, its own message the last, and what is said meanwhile. -/
inductive Delivers (wire : Wire) (pings : Pings) :
    List Part → List Run → (Peer.Voice → Peer.Voice) → Prop where
  | ended : Delivers wire pings [] [] id
  | say {command : String} {payload : List Octet} {rest : List Part} {runs : List Run}
      {change : Peer.Voice → Peer.Voice} (later : Delivers wire pings rest runs change) :
      Delivers wire pings (.say command payload :: rest) runs
        (change ∘ Peer.Voice.say wire command payload)
  | hear {run : Run} {rest : List Part} {runs : List Run} {change : Peer.Voice → Peer.Voice}
      (others : ∀ other ∈ run.dropped, other.command ≠ run.found.command)
      (later : Delivers wire pings rest runs change) :
      Delivers wire pings (.hear run.found.command :: rest) (run :: runs)
        (change ∘ Waiter.answers wire pings (Waiter.nonces pings run.messages))

/-- Where the messages of a script arrive in time for each of its waits, it is played to its end,
and what comes behind them is left. -/
theorem perform_delivered {script : List Part} {runs : List Run} {later : List Message}
    {change : Peer.Voice → Peer.Voice} (delivers : Delivers wire pings script runs change)
    {turns : Nat} : ∀ {waiter : Waiter},
    Peer.Arrived wire (runs.flatMap Run.messages ++ later) waiter.peer →
    Waiter.PingsParse pings (runs.flatMap Run.messages) →
    Waiter.InTime (Waiter.endpoint wire timeout scaled) waiter.clock waiter.ticks
      (waitsOf script) runs →
    (∀ run ∈ runs, run.dropped.length < turns) →
    ∃ reached, (Waiter.endpoint wire timeout scaled).perform pings turns script waiter =
      (.ok (runs.map Run.found), reached) ∧ Peer.Arrived wire later reached.peer ∧
      reached.peer.voice = change waiter.peer.voice := by
  induction delivers with
  | ended => exact fun arrived _ _ _ => ⟨_, rfl, arrived, rfl⟩
  | @say command payload rest runs change delivers ih =>
      intro waiter arrived parse inTime enough
      obtain ⟨said, run, voice, spoke⟩ := Peer.send_speaks wire command payload waiter.peer
      have sends : Endpoint.lift ((Waiter.endpoint wire timeout scaled).send command payload)
          waiter = (.ok (), { waiter with peer := said }) := by
        have sends : (Waiter.endpoint wire timeout scaled).send command payload waiter = _ :=
          Waiter.onPeer_of run
        rw [Endpoint.lift, sends]
      obtain ⟨reached, plays, left, speech⟩ := @ih { waiter with peer := said }
        (arrived.spoke spoke) parse inTime enough
      refine ⟨reached, ?_, left, ?_⟩
      · rw [Endpoint.perform, Action.bind_of_ok _ sends]
        exact plays
      · rw [speech]
        exact congrArg change voice
  | @hear run rest runs change others delivers ih =>
      intro waiter arrived parse inTime enough
      rw [List.flatMap_cons] at arrived parse
      obtain ⟨parse, parseLater⟩ := parse.split
      obtain ⟨soon, inTimeLater⟩ := inTime
      have finds : (⟨run.found.command, none, none⟩ : Wait).Accepts run.found := ⟨rfl, by simp⟩
      have drops : ∀ other ∈ run.dropped,
          ¬ (⟨run.found.command, none, none⟩ : Wait).Accepts other :=
        fun other member accepts => others other member accepts.1
      have front : run.messages ++ runs.flatMap Run.messages ++ later =
          run.dropped ++ run.found :: (runs.flatMap Run.messages ++ later) := by
        simp [Run.messages]
      rw [front] at arrived
      obtain ⟨between, waits, ticks, took⟩ := Waiter.waitFor_took finds run.dropped arrived drops
        parse soon (enough run List.mem_cons_self)
      rw [← took.clock] at inTimeLater
      rw [← Run.messages] at ticks
      rw [← ticks] at inTimeLater
      obtain ⟨reached, plays, left, speech⟩ := ih took.arrived parseLater inTimeLater
        fun other member => enough other (List.mem_cons_of_mem _ member)
      refine ⟨reached, ?_, left, ?_⟩
      · have waited : (Waiter.endpoint wire timeout scaled).waitFor pings run.found.command none
            none turns waiter = (.ok run.found, between) := waits
        rw [Endpoint.perform, Action.bind_of_ok _ waited, Action.bind_of_ok _ plays]
        rfl
      · rw [speech, took.voice]
        rfl

def Peer.Voice.sayAll (wire : Wire) (lines : List (String × List Octet)) (voice : Peer.Voice) :
    Peer.Voice :=
  lines.foldl (fun voice line => voice.say wire line.1 line.2) voice

theorem Delivers.saying {rest : List Part} {runs : List Run} {change : Peer.Voice → Peer.Voice}
    (delivers : Delivers wire pings rest runs change) (lines : List (String × List Octet)) :
    Delivers wire pings (saying lines ++ rest) runs (change ∘ Peer.Voice.sayAll wire lines) := by
  induction lines with
  | nil => exact delivers
  | cons line lines ih => exact .say ih

/-- What a handshake said, where it dropped so many pings before the `version` and after it. -/
def Greeting.voice (wire : Wire) (pings : Pings) (greeting : Greeting) (version : List Octet)
    (dropped between : List Message) (voice : Peer.Voice) : Peer.Voice :=
  let skim messages := Waiter.answers wire pings (Waiter.nonces pings messages)
  if greeting.dialled then
    skim between ((skim dropped (voice.say wire "version" version)).sayAll wire greeting.features)
  else skim between ((skim dropped voice).sayAll wire (greeting.lines version))

theorem nonces_wanted {message : Message} (noPing : message.command ≠ "ping")
    (dropped : List Message) :
    Waiter.nonces pings (dropped ++ [message]) = Waiter.nonces pings dropped := by
  simp [Waiter.nonces, noPing]

theorem Delivers.wait {command : String} {run : Run} {rest : List Part} {runs : List Run}
    {change : Peer.Voice → Peer.Voice} (named : run.found.command = command)
    (noPing : command ≠ "ping") (others : ∀ other ∈ run.dropped, other.command ≠ command)
    (later : Delivers wire pings rest runs change) :
    Delivers wire pings (.hear command :: rest) (run :: runs)
      (change ∘ Waiter.answers wire pings (Waiter.nonces pings run.dropped)) := by
  subst named
  have messages := @nonces_wanted pings run.found noPing run.dropped
  rw [← messages, ← Run.messages]
  exact .hear others later

theorem waitsOf_saying (lines : List (String × List Octet)) (rest : List Part) :
    waitsOf (saying lines ++ rest) = waitsOf rest := by
  induction lines with
  | nil => rfl
  | cons line lines ih => exact ih

theorem Greeting.waits (greeting : Greeting) (version : List Octet) :
    waitsOf (greeting.script version) =
      [⟨"version", none, none⟩, ⟨"verack", none, none⟩] := by
  rw [Greeting.script, List.append_assoc]
  split
  · exact congrArg (List.cons _) (waitsOf_saying _ _)
  · exact congrArg (List.cons _) (waitsOf_saying _ _)

theorem Greeting.delivers {greeting : Greeting} {version : List Octet} {opening closing : Run}
    (named : opening.found.command = "version") (ended : closing.found.command = "verack")
    (others : ∀ message ∈ opening.dropped, message.command ≠ "version")
    (more : ∀ message ∈ closing.dropped, message.command ≠ "verack") :
    Delivers wire pings (greeting.script version) [opening, closing]
      (greeting.voice wire pings version opening.dropped closing.dropped) := by
  have final : Delivers wire pings [.hear "verack"] [closing]
      (Waiter.answers wire pings (Waiter.nonces pings closing.dropped)) :=
    .wait ended (by decide) more .ended
  rw [Greeting.script, List.append_assoc]
  by_cases dialled : greeting.dialled = true
  · have same : greeting.voice wire pings version opening.dropped closing.dropped = fun voice =>
        Waiter.answers wire pings (Waiter.nonces pings closing.dropped)
          ((Waiter.answers wire pings (Waiter.nonces pings opening.dropped)
            (voice.say wire "version" version)).sayAll wire greeting.features) := by
      funext voice
      rw [Greeting.voice, if_pos dialled]
    rw [if_pos dialled, same]
    exact .say (.wait named (by decide) others (final.saying greeting.features))
  · have same : greeting.voice wire pings version opening.dropped closing.dropped = fun voice =>
        Waiter.answers wire pings (Waiter.nonces pings closing.dropped)
          ((Waiter.answers wire pings (Waiter.nonces pings opening.dropped) voice).sayAll wire
            (greeting.lines version)) := by
      funext voice
      rw [Greeting.voice, if_neg dialled]
    rw [if_neg dialled, same]
    exact .wait named (by decide) others (final.saying (greeting.lines version))

/-- Where the other side's `version` and, later, its `verack` arrive before the deadline of the
wait for each, however the octets are cut and on either transport, the handshake returns that
`version`; what it said is its own lines and a pong for each ping it met, in order, and what came
behind the `verack` is left. -/
theorem handshake_returns {ν : Type} {versions : Versions ν} {version : ν} {greeting : Greeting}
    {opening closing : Run} {later : List Message} {waiter : Waiter} {secret turns : Nat}
    (arrived : Peer.Arrived wire ([opening, closing].flatMap Run.messages ++ later) waiter.peer)
    (named : opening.found.command = "version") (ended : closing.found.command = "verack")
    (others : ∀ message ∈ opening.dropped, message.command ≠ "version")
    (more : ∀ message ∈ closing.dropped, message.command ≠ "verack")
    (parses : versions.parse opening.found.payload = some version)
    (parse : Waiter.PingsParse pings ([opening, closing].flatMap Run.messages))
    (inTime : Waiter.InTime (Waiter.endpoint wire timeout scaled) waiter.clock waiter.ticks
      [⟨"version", none, none⟩, ⟨"verack", none, none⟩] [opening, closing])
    (enough : ∀ run ∈ [opening, closing], run.dropped.length < turns) :
    ∃ reached, (Waiter.greeter wire timeout scaled secret).handshake pings versions greeting turns
        waiter = (.ok version, reached) ∧
      Peer.Arrived wire later reached.peer ∧
      reached.peer.voice = greeting.voice wire pings
        (versions.payload greeting.services (secret % 2 ^ 64)) opening.dropped closing.dropped
        waiter.peer.voice := by
  have delivers := @Greeting.delivers pings wire greeting
    (versions.payload greeting.services (secret % 2 ^ 64)) _ _ named ended others more
  rw [← greeting.waits (versions.payload greeting.services (secret % 2 ^ 64))] at inTime
  obtain ⟨reached, plays, left, speech⟩ := perform_delivered delivers arrived parse inTime enough
  refine ⟨reached, ?_, left, speech⟩
  rw [Endpoint.handshake_eq]
  have draws : Endpoint.lift ((Waiter.greeter wire timeout scaled secret).randbelow (2 ^ 64))
      waiter = (.ok (secret % 2 ^ 64), waiter) := rfl
  rw [Action.bind_of_ok _ draws, Waiter.greeter, perform_draws, Action.bind_of_ok _ plays]
  simp [parses]

end Delivered

namespace Waiter

def welcomeVersion : Run :=
  ⟨[regtest "ping" (Link.nonceOctets 5)], regtest "version" (Link.nonceOctets 9)⟩

def welcomeVerack : Run := ⟨[regtest "ping" (Link.nonceOctets 6)], regtest "verack" []⟩

/-- What a node sends that pings and announces what it has before it answers. -/
def welcome : List Message :=
  [welcomeVersion, welcomeVerack].flatMap Run.messages ++ [regtest "ping" []]

theorem welcome_arrived : Peer.Arrived PlainWire.wire welcome (waitingOn welcome).peer := by
  refine waitingOn_arrived fun message member => ?_
  simp only [welcome, welcomeVersion, welcomeVerack, Run.messages, List.flatMap_cons,
    List.flatMap_nil, List.cons_append, List.nil_append, List.mem_cons, List.not_mem_nil,
    or_false] at member
  rcases member with rfl | rfl | rfl | rfl | rfl
  · exact valid_regtest (by decide) le_rfl
  · exact valid_regtest (by decide) le_rfl
  · exact valid_regtest (by decide) le_rfl
  · exact valid_regtest (by decide) (Nat.zero_le _)
  · exact valid_regtest (by decide) (Nat.zero_le _)

theorem handshake_returns_welcome : ∃ reached,
    (greeter PlainWire.wire 60 id 7).handshake Link.plainPings plainVersions ⟨true, 9, false, true⟩
      5 (waitingOn welcome) = (.ok 9, reached) ∧
    Peer.Arrived PlainWire.wire [regtest "ping" []] reached.peer := by
  have inTime : InTime (endpoint PlainWire.wire 60 id) (waitingOn welcome).clock
      (waitingOn welcome).ticks [⟨"version", none, none⟩, ⟨"verack", none, none⟩]
      [welcomeVersion, welcomeVerack] := by
    simp [InTime, allowed, endpoint, waitingOn]
  obtain ⟨reached, run, left, -⟩ := @handshake_returns Link.plainPings PlainWire.wire 60 id _
    plainVersions 9 ⟨true, 9, false, true⟩ welcomeVersion welcomeVerack [regtest "ping" []]
    (waitingOn welcome) 7 5 welcome_arrived rfl rfl (by decide) (by decide) (by decide) (by decide)
    inTime (by decide)
  exact ⟨reached, run, left⟩

end Waiter

end BitcoinNodeTests
