import BitcoinNodeTests.Socks5.Negotiated
import BitcoinNodeTests.Socks5.Proxy

/-!
# Who closes a connection

A connection that was accepted is closed, or somebody is to close it: the accepting
thread that has not handed it on, `close` where it is held, the thread that forwards it.
Once the accepting thread has returned nobody takes one up any more, which is what a call
of `close` finds after its join and keeps until it returns.
-/

set_option autoImplicit false

namespace BitcoinNodeTests.Socks5

open Proxy

attribute [local simp] change closeConnection shutdown endNegotiation put serveAt forwardAt closeAt

/-- The accepting thread has a connection it has neither closed nor handed on. -/
def Serving.Keeps (connection : Nat) : Serving → Prop
  | .checking kept => kept = connection
  | .refusing kept => kept = connection
  | .publishing kept => kept = connection
  | .negotiating kept => kept = connection
  | .closingFailed kept _ => kept = connection
  | .queueing kept _ => kept = connection
  | .tracking kept => kept = connection
  | .holding kept => kept = connection
  | .spawning kept => kept = connection
  | .queueingFailed _ _ => False
  | .accepting => False
  | .unpublishing => False
  | .returned => False
  | .died => False

/-- The accepting thread has seen the event set. -/
def Serving.Leaves : Serving → Prop
  | .refusing _ => True
  | .returned => True
  | _ => False

/-- A forwarding thread is inside the `with` of its connection. -/
def Forwarding.Holds : Forwarding → Prop
  | .running => True
  | .leaving _ => True
  | _ => False

/-- A connection is closed, or is somebody's to close. -/
def Proxy.Accounted (proxy : Proxy) (connection : Nat) : Prop :=
  (proxy.connections connection).closed = true ∨ proxy.serving.Keeps connection ∨
    connection ∈ proxy.held ∨ (proxy.forwarding connection).Holds

/-- What holds of the connections whatever the threads do. -/
structure Owned (proxy : Proxy) : Prop where
  latest : ∀ connection, proxy.serving.Keeps connection → connection + 1 = proxy.accepted
  alive : proxy.serving ≠ .died
  leaves : proxy.serving.Leaves → proxy.closing = true
  accounted : ∀ connection < proxy.accepted, proxy.Accounted connection
  spawned : ∀ connection, proxy.forwarding connection ≠ .idle → connection ∈ proxy.forwarders

theorem owned_started : Owned started where
  latest := nofun
  alive := nofun
  leaves := nofun
  accounted := nofun
  spawned := fun _ forwards => absurd rfl forwards

theorem negotiated_cases (settings : Settings) (connection : Nat) (client : Client)
    (proxy : Proxy) :
    (∃ request, proxy.negotiated settings connection client =
      (proxy.endNegotiation connection (.ok request)).serveAt (.queueing connection request)) ∨
    ∃ error, proxy.negotiated settings connection client =
      (proxy.endNegotiation connection (.error error)).serveAt
        (.closingFailed connection error) := by
  unfold negotiated
  rcases run : negotiate settings.authentication client with ⟨result, after⟩
  cases result with
  | ok request => exact .inl ⟨request, rfl⟩
  | error error =>
      have expected := ((negotiate_accounts settings.authentication).error run).1
      exact .inr ⟨error, if_pos expected⟩

theorem closeConnection_closed (connection other : Nat) (proxy : Proxy) :
    ((proxy.closeConnection connection).connections other).closed = true ↔
      other = connection ∨ (proxy.connections other).closed = true := by
  by_cases same : other = connection
  · subst same
    simp
  · simp [same]

theorem shutdown_closed (connection other : Nat) (proxy : Proxy) :
    ((proxy.shutdown connection).connections other).closed = (proxy.connections other).closed := by
  by_cases same : other = connection
  · subst same
    simp
  · simp [same]

theorem closeConnection_outcome (connection other : Nat) (proxy : Proxy) :
    ((proxy.closeConnection connection).connections other).outcome =
      (proxy.connections other).outcome := by
  by_cases same : other = connection
  · subst same
    simp
  · simp [same]

theorem shutdown_outcome (connection other : Nat) (proxy : Proxy) :
    ((proxy.shutdown connection).connections other).outcome =
      (proxy.connections other).outcome := by
  by_cases same : other = connection
  · subst same
    simp
  · simp [same]

theorem endNegotiation_closed (connection other : Nat) (ending : Ending) (proxy : Proxy) :
    ((proxy.endNegotiation connection ending).connections other).closed =
      (proxy.connections other).closed := by
  by_cases same : other = connection
  · subst same
    simp
  · simp [same]

theorem Proxy.Accounted.mono {proxy reached : Proxy} {connection : Nat}
    (accounted : proxy.Accounted connection)
    (closed : (proxy.connections connection).closed = true →
      (reached.connections connection).closed = true)
    (keeps : proxy.serving.Keeps connection → reached.Accounted connection)
    (held : connection ∈ proxy.held → connection ∈ reached.held)
    (holds : (proxy.forwarding connection).Holds → reached.Accounted connection) :
    reached.Accounted connection := by
  rcases accounted with shut | kept | among | forwarded
  · exact .inl (closed shut)
  · exact keeps kept
  · exact .inr (.inr (.inl (held among)))
  · exact holds forwarded

/-- The accepting thread goes on to a place where it has the same connection. -/
theorem Owned.serveAt {proxy : Proxy} {serving : Serving} (owned : Owned proxy)
    (keeps : ∀ connection, serving.Keeps connection ↔ proxy.serving.Keeps connection)
    (alive : serving ≠ .died) (leaves : serving.Leaves → proxy.closing = true) :
    Owned (proxy.serveAt serving) where
  latest connection kept := owned.latest connection ((keeps connection).mp kept)
  alive := alive
  leaves := leaves
  accounted connection older := by
    refine (owned.accounted connection older).mono id ?_ id ?_
    · intro kept
      exact .inr (.inl ((keeps connection).mpr kept))
    · intro holds
      exact .inr (.inr (.inr holds))
  spawned := owned.spawned

/-- The accepting thread goes on to a place where it has none, that of its own accounted
for. -/
theorem Owned.release {proxy reached : Proxy} (owned : Owned proxy)
    (free : ∀ connection, ¬ reached.serving.Keeps connection) (alive : reached.serving ≠ .died)
    (leaves : reached.serving.Leaves → reached.closing = true)
    (accepted : reached.accepted = proxy.accepted)
    (given : ∀ connection, proxy.serving.Keeps connection → reached.Accounted connection)
    (closed : ∀ connection, (proxy.connections connection).closed = true →
      (reached.connections connection).closed = true)
    (held : ∀ connection ∈ proxy.held, connection ∈ reached.held)
    (holds : ∀ connection, (proxy.forwarding connection).Holds →
      (reached.forwarding connection).Holds)
    (spawned : ∀ connection, reached.forwarding connection ≠ .idle →
      connection ∈ reached.forwarders) : Owned reached where
  latest connection kept := absurd kept (free connection)
  alive := alive
  leaves := leaves
  accounted connection older := by
    rw [accepted] at older
    refine (owned.accounted connection older).mono (closed connection) (given connection)
      (held connection) ?_
    intro forwarded
    exact .inr (.inr (.inr (holds connection forwarded)))
  spawned := spawned

theorem Owned.endNegotiation {proxy : Proxy} (owned : Owned proxy) (connection : Nat)
    (ending : Ending) : Owned (proxy.endNegotiation connection ending) where
  latest := owned.latest
  alive := owned.alive
  leaves := owned.leaves
  accounted other older := by
    refine (owned.accounted other older).mono ?_ (fun kept => .inr (.inl kept)) id
      (fun forwarded => .inr (.inr (.inr forwarded)))
    intro closed
    rw [endNegotiation_closed, closed]
  spawned := owned.spawned

theorem Owned.accept {proxy : Proxy} (owned : Owned proxy) (place : proxy.serving = .accepting)
    (backlog : Nat) : Owned { proxy with
      backlog := backlog
      accepted := proxy.accepted + 1
      serving := .checking proxy.accepted } := by
  refine ⟨?_, nofun, nofun, ?_, owned.spawned⟩
  · intro connection kept
    cases kept
    rfl
  · intro connection older
    by_cases latest : connection = proxy.accepted
    · exact .inr (.inl latest.symm)
    · have before : connection < proxy.accepted := by
        simp only at older
        omega
      refine (owned.accounted connection before).mono id ?_ id ?_
      · intro kept
        rw [place] at kept
        cases kept
      · intro holds
        exact .inr (.inr (.inr holds))

theorem Owned.closeKept {proxy : Proxy} {connection : Nat} {serving : Serving} (owned : Owned proxy)
    (only : ∀ other, proxy.serving.Keeps other → other = connection)
    (free : ∀ other, ¬ serving.Keeps other) (alive : serving ≠ .died)
    (leaves : serving.Leaves → proxy.closing = true) :
    Owned ((proxy.closeConnection connection).serveAt serving) := by
  refine owned.release free alive leaves rfl ?_ ?_ (fun _ => id) (fun _ => id) owned.spawned
  · intro other kept
    exact .inl ((closeConnection_closed connection other proxy).mpr (.inl (only other kept)))
  · intro other closed
    exact (closeConnection_closed connection other proxy).mpr (.inr closed)

theorem Owned.hold {proxy : Proxy} {connection : Nat} (owned : Owned proxy)
    (place : proxy.serving = .holding connection) :
    Owned { proxy with held := proxy.held ++ [connection], serving := .unpublishing } := by
  refine owned.release nofun nofun nofun rfl ?_ (fun _ => id) ?_ (fun _ => id) owned.spawned
  · intro other kept
    rw [place] at kept
    cases kept
    exact .inr (.inr (.inl (List.mem_append_right _ (List.mem_singleton_self _))))
  · intro other held
    exact List.mem_append_left _ held

theorem Owned.spawn {proxy : Proxy} {connection : Nat} (owned : Owned proxy)
    (place : proxy.serving = .spawning connection) :
    Owned (({ proxy with forwarders := proxy.forwarders ++ [connection] }.forwardAt connection
      .running).serveAt .unpublishing) := by
  refine owned.release nofun nofun nofun rfl ?_ (fun _ => id) (fun _ => id) ?_ ?_
  · intro other kept
    rw [place] at kept
    cases kept
    refine .inr (.inr (.inr ?_))
    simp [Forwarding.Holds]
  · intro other holds
    by_cases same : other = connection
    · simp [same, Forwarding.Holds]
    · simpa [same] using holds
  · intro other forwards
    by_cases same : other = connection
    · simp [same]
    · have before := owned.spawned other (by simpa [same] using forwards)
      simp [before]

theorem serve_owned {settings : Settings} {client : Client} {proxy reached : Proxy}
    (owned : Owned proxy) (moved : proxy.serve settings client = some reached) :
    Owned reached := by
  unfold serve at moved
  cases place : proxy.serving with
  | accepting =>
      rw [place] at moved
      dsimp only at moved
      split at moved
      · cases moved
        exact owned.accept place _
      · cases moved
  | checking connection =>
      rw [place] at moved
      cases moved
      split
      next closing =>
        exact owned.serveAt (by simp [place, Serving.Keeps]) nofun (fun _ => closing)
      next =>
        exact owned.serveAt (by simp [place, Serving.Keeps]) nofun nofun
  | refusing connection =>
      rw [place] at moved
      cases moved
      refine owned.closeKept ?_ nofun nofun fun _ => owned.leaves (by rw [place]; trivial)
      simp [place, Serving.Keeps]
  | publishing connection =>
      rw [place] at moved
      cases moved
      have served : Owned (proxy.serveAt (.negotiating connection)) :=
        owned.serveAt (by simp [place, Serving.Keeps]) nofun nofun
      exact { served with }
  | negotiating connection =>
      rw [place] at moved
      cases moved
      rcases negotiated_cases settings connection client proxy with
        ⟨request, ended⟩ | ⟨error, ended⟩
      · rw [ended]
        exact (owned.endNegotiation connection _).serveAt (by simp [place, Serving.Keeps])
          nofun nofun
      · rw [ended]
        exact (owned.endNegotiation connection _).serveAt (by simp [place, Serving.Keeps])
          nofun nofun
  | closingFailed connection error =>
      rw [place] at moved
      cases moved
      refine owned.closeKept ?_ nofun nofun nofun
      simp [place, Serving.Keeps]
  | queueingFailed connection error =>
      rw [place] at moved
      cases moved
      have queued : Owned (proxy.put (.own connection (.error error))) := { owned with }
      exact queued.serveAt (by simp [place, Serving.Keeps]) nofun nofun
  | queueing connection request =>
      rw [place] at moved
      cases moved
      have queued : Owned (proxy.put (.own connection (.ok request))) := { owned with }
      split
      · exact queued.serveAt (by simp [place, Serving.Keeps]) nofun nofun
      · exact queued.serveAt (by simp [place, Serving.Keeps]) nofun nofun
  | tracking connection =>
      rw [place] at moved
      dsimp only at moved
      split at moved
      · cases moved
        exact owned.serveAt (by simp [place, Serving.Keeps]) nofun nofun
      · cases moved
        have tracked : Owned (proxy.serveAt (.spawning connection)) :=
          owned.serveAt (by simp [place, Serving.Keeps]) nofun nofun
        exact { tracked with }
  | holding connection =>
      rw [place] at moved
      cases moved
      exact owned.hold place
  | spawning connection =>
      rw [place] at moved
      cases moved
      exact owned.spawn place
  | unpublishing =>
      rw [place] at moved
      cases moved
      have served : Owned (proxy.serveAt .accepting) :=
        owned.serveAt (by simp [place, Serving.Keeps]) nofun nofun
      exact { served with }
  | returned =>
      rw [place] at moved
      cases moved
  | died => exact absurd place owned.alive

/-- A step of another thread leaves everything but what a connection's own state and the
event say. -/
theorem Owned.aside {proxy reached : Proxy} (owned : Owned proxy)
    (serving : reached.serving = proxy.serving) (accepted : reached.accepted = proxy.accepted)
    (held : reached.held = proxy.held) (forwarders : reached.forwarders = proxy.forwarders)
    (closing : proxy.closing = true → reached.closing = true)
    (closed : ∀ connection, (proxy.connections connection).closed = true →
      (reached.connections connection).closed = true)
    (forwards : ∀ connection, reached.forwarding connection ≠ .idle →
      proxy.forwarding connection ≠ .idle)
    (holds : ∀ connection, (proxy.forwarding connection).Holds →
      (reached.connections connection).closed = true ∨ (reached.forwarding connection).Holds) :
    Owned reached where
  latest := by
    rw [serving, accepted]
    exact owned.latest
  alive := by
    rw [serving]
    exact owned.alive
  leaves left := closing (owned.leaves (serving ▸ left))
  accounted connection older := by
    rw [accepted] at older
    refine (owned.accounted connection older).mono (closed connection) ?_ ?_ ?_
    · intro kept
      rw [← serving] at kept
      exact .inr (.inl kept)
    · rw [held]
      exact id
    · intro forwarded
      rcases holds connection forwarded with shut | still
      · exact .inl shut
      · exact .inr (.inr (.inr still))
  spawned connection started := by
    rw [forwarders]
    exact owned.spawned connection (forwards connection started)

/-- A forwarding thread that goes on was started, and leaves its connection closed or
inside its `with`. -/
theorem Owned.forwardAt {proxy : Proxy} (owned : Owned proxy) {connection : Nat}
    {forwarding : Forwarding} (started : proxy.forwarding connection ≠ .idle)
    (holds : (proxy.forwarding connection).Holds →
      (proxy.connections connection).closed = true ∨ forwarding.Holds) :
    Owned (proxy.forwardAt connection forwarding) := by
  refine owned.aside rfl rfl rfl rfl id (fun _ => id) ?_ ?_
  · intro other forwards
    by_cases same : other = connection
    · rw [same]
      exact started
    · simpa [same] using forwards
  · intro other forwarded
    by_cases same : other = connection
    · subst same
      simpa using holds forwarded
    · exact .inr (by simpa [same] using forwarded)

theorem Owned.closeConnection {proxy : Proxy} (owned : Owned proxy) (connection : Nat) :
    Owned (proxy.closeConnection connection) :=
  owned.aside rfl rfl rfl rfl id
    (fun other closed => (closeConnection_closed connection other proxy).mpr (.inr closed))
    (fun _ => id) (fun _ => .inr)

theorem forward_owned {connection : Nat} {raised : Option String} {proxy reached : Proxy}
    (owned : Owned proxy) (moved : proxy.forward connection raised = some reached) :
    Owned reached := by
  have closed : ((proxy.closeConnection connection).connections connection).closed = true :=
    (closeConnection_closed connection connection proxy).mpr (.inl rfl)
  unfold forward at moved
  cases place : proxy.forwarding connection with
  | idle =>
      rw [place] at moved
      cases moved
  | running =>
      rw [place] at moved
      cases moved
      exact owned.forwardAt (by simp [place]) (fun _ => .inr trivial)
  | leaving raised =>
      rw [place] at moved
      have started : (proxy.closeConnection connection).forwarding connection ≠ .idle := by
        simp [place]
      cases raised with
      | none =>
          cases moved
          exact (owned.closeConnection connection).forwardAt started (fun _ => .inl closed)
      | some text =>
          cases moved
          exact (owned.closeConnection connection).forwardAt started (fun _ => .inl closed)
  | checking text =>
      rw [place] at moved
      cases moved
      refine owned.forwardAt (by simp [place]) ?_
      simp [place, Forwarding.Holds]
  | queueing text =>
      rw [place] at moved
      cases moved
      have queued : Owned (proxy.put (.redirect connection text)) := { owned with }
      refine queued.forwardAt (by simp [place]) ?_
      simp [place, Forwarding.Holds]
  | discarding =>
      rw [place] at moved
      cases moved
      have discarded : Owned { proxy with
          forwarded := proxy.forwarded.filter (· ≠ connection) } := { owned with }
      refine discarded.forwardAt (by simp [place]) ?_
      simp [place, Forwarding.Holds]
  | done =>
      rw [place] at moved
      cases moved

/-- What a call of `close` leaves as it was: connections are shut down and closed, the
listening socket is woken and closed, and no thread is moved. -/
structure Spares (proxy reached : Proxy) : Prop where
  serving : reached.serving = proxy.serving
  accepted : reached.accepted = proxy.accepted
  held : reached.held = proxy.held
  forwarders : reached.forwarders = proxy.forwarders
  forwarding : reached.forwarding = proxy.forwarding
  results : reached.results = proxy.results
  closing : proxy.closing = true → reached.closing = true
  listening : proxy.listening = false → reached.listening = false
  closed : ∀ connection, (proxy.connections connection).closed = true →
    (reached.connections connection).closed = true
  outcome : ∀ connection,
    (reached.connections connection).outcome = (proxy.connections connection).outcome

theorem Spares.of_connections {proxy : Proxy} {caller : Nat} {closing : Closing}
    {connections : Nat → Connection}
    (closed : ∀ connection, (proxy.connections connection).closed = true →
      (connections connection).closed = true)
    (outcome : ∀ connection,
      (connections connection).outcome = (proxy.connections connection).outcome) :
    Spares proxy ({ proxy with connections := connections }.closeAt caller closing) :=
  ⟨rfl, rfl, rfl, rfl, rfl, rfl, id, id, closed, outcome⟩

theorem Spares.closeAt (proxy : Proxy) (caller : Nat) (closing : Closing) :
    Spares proxy (proxy.closeAt caller closing) :=
  .of_connections (fun _ => id) (fun _ => rfl)

theorem Spares.shutdown (proxy : Proxy) (connection caller : Nat) (closing : Closing) :
    Spares proxy ((proxy.shutdown connection).closeAt caller closing) :=
  .of_connections (fun other closed => (shutdown_closed connection other proxy).trans closed)
    (fun other => shutdown_outcome connection other proxy)

theorem Spares.closeConnection (proxy : Proxy) (connection caller : Nat) (closing : Closing) :
    Spares proxy ((proxy.closeConnection connection).closeAt caller closing) :=
  .of_connections
    (fun other closed => (closeConnection_closed connection other proxy).mpr (.inr closed))
    (fun other => closeConnection_outcome connection other proxy)

theorem close_spares {caller : Nat} {proxy reached : Proxy}
    (moved : proxy.close caller = some reached) : Spares proxy reached := by
  unfold close at moved
  cases place : proxy.closers caller with
  | entering =>
      rw [place] at moved
      dsimp only at moved
      split at moved
      · cases moved
        exact .closeAt proxy caller _
      · cases moved
        exact ⟨rfl, rfl, rfl, rfl, rfl, rfl, fun _ => rfl, id, fun _ => id, fun _ => rfl⟩
  | shutting forwarded =>
      rw [place] at moved
      cases forwarded with
      | nil =>
          cases moved
          exact .closeAt proxy caller _
      | cons connection rest =>
          cases moved
          exact .shutdown proxy connection caller _
  | reading =>
      rw [place] at moved
      dsimp only at moved
      split at moved
      · cases moved
        exact .closeAt proxy caller _
      · cases moved
        exact .closeAt proxy caller _
  | interrupting connection =>
      rw [place] at moved
      cases moved
      exact .shutdown proxy connection caller _
  | waking =>
      rw [place] at moved
      cases moved
      exact ⟨rfl, rfl, rfl, rfl, rfl, rfl, id, id, fun _ => id, fun _ => rfl⟩
  | joining =>
      rw [place] at moved
      dsimp only at moved
      split at moved
      · cases moved
        exact .closeAt proxy caller _
      · cases moved
        exact .closeAt proxy caller _
      · cases moved
  | stopping =>
      rw [place] at moved
      cases moved
      exact ⟨rfl, rfl, rfl, rfl, rfl, rfl, id, fun _ => rfl, fun _ => id, fun _ => rfl⟩
  | closing held =>
      rw [place] at moved
      cases held with
      | nil =>
          cases moved
          exact .closeAt proxy caller _
      | cons connection rest =>
          cases moved
          exact .closeConnection proxy connection caller _
  | awaiting forwarders =>
      rw [place] at moved
      cases forwarders with
      | nil =>
          cases moved
          exact .closeAt proxy caller _
      | cons connection rest =>
          dsimp only at moved
          split at moved
          · cases moved
            exact .closeAt proxy caller _
          · cases moved
  | returned first =>
      rw [place] at moved
      cases moved

theorem close_owned {caller : Nat} {proxy reached : Proxy} (owned : Owned proxy)
    (moved : proxy.close caller = some reached) : Owned reached := by
  have spares := close_spares moved
  refine owned.aside spares.serving spares.accepted spares.held spares.forwarders spares.closing
    spares.closed ?_ ?_
  · intro connection forwards
    rw [← spares.forwarding]
    exact forwards
  · intro connection holds
    rw [spares.forwarding]
    exact .inr holds

theorem step_owned {settings : Settings} {move : Move} {proxy reached : Proxy}
    (owned : Owned proxy) (moved : step settings move proxy = some reached) : Owned reached := by
  cases move with
  | connect =>
      simp only [step] at moved
      split at moved
      · cases moved
        exact { owned with }
      · cases moved
  | serve client => exact serve_owned owned moved
  | forward connection raised => exact forward_owned owned moved
  | close caller => exact close_owned owned moved

end BitcoinNodeTests.Socks5
