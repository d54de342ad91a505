import BitcoinNodeTests.Socks5.Queued

/-!
# What `close` leaves

What a call of `close` has established stays true while it goes on: once the accepting
thread has returned, nothing is accepted, held or spawned, what is closed stays closed and
a forwarding thread that ended stays so.
-/

set_option autoImplicit false

namespace BitcoinNodeTests.Socks5

open Proxy

attribute [local simp] change closeConnection shutdown endNegotiation put serveAt forwardAt closeAt

/-- What no step undoes once the accepting thread has returned. -/
structure Settles (proxy reached : Proxy) : Prop where
  serving : reached.serving = .returned
  listening : proxy.listening = false → reached.listening = false
  accepted : reached.accepted = proxy.accepted
  held : reached.held = proxy.held
  forwarders : reached.forwarders = proxy.forwarders
  closed : ∀ connection, (proxy.connections connection).closed = true →
    (reached.connections connection).closed = true
  done : ∀ connection, proxy.forwarding connection = .done → reached.forwarding connection = .done

theorem Settles.trans {proxy middle reached : Proxy} (first : Settles proxy middle)
    (second : Settles middle reached) : Settles proxy reached where
  serving := second.serving
  listening := second.listening ∘ first.listening
  accepted := second.accepted.trans first.accepted
  held := second.held.trans first.held
  forwarders := second.forwarders.trans first.forwarders
  closed connection := second.closed connection ∘ first.closed connection
  done connection := second.done connection ∘ first.done connection

/-- A forwarding thread goes on from a place that is not its last. -/
theorem Settles.forwardAt {proxy : Proxy} {connection : Nat} {forwarding : Forwarding}
    (returned : proxy.serving = .returned) (busy : proxy.forwarding connection ≠ .done) :
    Settles proxy (proxy.forwardAt connection forwarding) := by
  refine ⟨returned, id, rfl, rfl, rfl, fun _ => id, ?_⟩
  intro other done
  have distinct : other ≠ connection := by
    rintro rfl
    exact busy done
  simpa [distinct] using done

theorem Settles.closeConnection {proxy : Proxy} (returned : proxy.serving = .returned)
    (connection : Nat) : Settles proxy (proxy.closeConnection connection) :=
  ⟨returned, id, rfl, rfl, rfl,
    fun other closed => (closeConnection_closed connection other proxy).mpr (.inr closed),
    fun _ => id⟩

theorem forward_settles {connection : Nat} {raised : Option String} {proxy reached : Proxy}
    (returned : proxy.serving = .returned)
    (moved : proxy.forward connection raised = some reached) : Settles proxy reached := by
  unfold forward at moved
  cases place : proxy.forwarding connection with
  | idle =>
      rw [place] at moved
      cases moved
  | running =>
      rw [place] at moved
      cases moved
      exact .forwardAt returned (by simp [place])
  | leaving raised =>
      rw [place] at moved
      have closes := Settles.closeConnection returned connection
      have busy : (proxy.closeConnection connection).forwarding connection ≠ .done := by
        simp [place]
      cases raised with
      | none =>
          cases moved
          exact closes.trans (.forwardAt closes.serving busy)
      | some text =>
          cases moved
          exact closes.trans (.forwardAt closes.serving busy)
  | checking text =>
      rw [place] at moved
      cases moved
      exact .forwardAt returned (by simp [place])
  | queueing text =>
      rw [place] at moved
      cases moved
      have settles := @Settles.forwardAt proxy connection .discarding returned (by simp [place])
      exact { settles with }
  | discarding =>
      rw [place] at moved
      cases moved
      have settles := @Settles.forwardAt proxy connection .done returned (by simp [place])
      exact { settles with }
  | done =>
      rw [place] at moved
      cases moved

theorem close_settles {caller : Nat} {proxy reached : Proxy} (returned : proxy.serving = .returned)
    (moved : proxy.close caller = some reached) : Settles proxy reached := by
  have spares := close_spares moved
  refine ⟨spares.serving.trans returned, spares.listening, spares.accepted, spares.held,
    spares.forwarders, spares.closed, ?_⟩
  rw [spares.forwarding]
  exact fun _ => id

theorem step_settles {settings : Settings} {move : Move} {proxy reached : Proxy}
    (returned : proxy.serving = .returned)
    (moved : step settings move proxy = some reached) : Settles proxy reached := by
  cases move with
  | connect =>
      simp only [step] at moved
      split at moved
      · cases moved
        exact ⟨returned, id, rfl, rfl, rfl, fun _ => id, fun _ => id⟩
      · cases moved
  | serve client =>
      simp only [step, serve, returned] at moved
      cases moved
  | forward connection raised => exact forward_settles returned moved
  | close caller => exact close_settles returned moved

/-! ## The calls of `close` -/

/-- A call of `close` that found the event unset. -/
def Closing.First : Closing → Prop
  | .entering => False
  | .returned first => first = true
  | _ => True

/-- The accepting thread has returned, and the listening socket is closed. -/
def Proxy.Stopped (proxy : Proxy) : Prop := proxy.serving = .returned ∧ proxy.listening = false

/-- What a call of `close` has established where it is. -/
def Closing.Established (proxy : Proxy) : Closing → Prop
  | .stopping => proxy.serving = .returned
  | .closing rest =>
      proxy.Stopped ∧ ∀ connection ∈ proxy.held,
        (proxy.connections connection).closed = true ∨ connection ∈ rest
  | .awaiting rest =>
      proxy.Stopped ∧ (∀ connection ∈ proxy.held, (proxy.connections connection).closed = true) ∧
        ∀ connection ∈ proxy.forwarders,
          proxy.forwarding connection = .done ∨ connection ∈ rest
  | .returned true =>
      proxy.Stopped ∧ (∀ connection ∈ proxy.held, (proxy.connections connection).closed = true) ∧
        ∀ connection ∈ proxy.forwarders, proxy.forwarding connection = .done
  | _ => True

theorem Settles.stopped {proxy reached : Proxy} (settles : Settles proxy reached)
    (stopped : proxy.Stopped) : reached.Stopped :=
  ⟨settles.serving, settles.listening stopped.2⟩

theorem Closing.Established.step {settings : Settings} {move : Move} {proxy reached : Proxy}
    (moved : step settings move proxy = some reached) {closing : Closing}
    (established : closing.Established proxy) : closing.Established reached := by
  cases closing with
  | entering => trivial
  | shutting forwarded => trivial
  | reading => trivial
  | interrupting connection => trivial
  | waking => trivial
  | joining => trivial
  | stopping => exact (step_settles established moved).serving
  | closing rest =>
      obtain ⟨stopped, closed⟩ := established
      have settles := step_settles stopped.1 moved
      refine ⟨settles.stopped stopped, ?_⟩
      rw [settles.held]
      exact fun connection held => (closed connection held).imp_left (settles.closed connection)
  | awaiting rest =>
      obtain ⟨stopped, closed, done⟩ := established
      have settles := step_settles stopped.1 moved
      refine ⟨settles.stopped stopped, ?_, ?_⟩
      · rw [settles.held]
        exact fun connection held => settles.closed connection (closed connection held)
      · rw [settles.forwarders]
        exact fun connection spawned =>
          (done connection spawned).imp_left (settles.done connection)
  | returned first =>
      cases first with
      | false => trivial
      | true =>
          obtain ⟨stopped, closed, done⟩ := established
          have settles := step_settles stopped.1 moved
          refine ⟨settles.stopped stopped, ?_, ?_⟩
          · rw [settles.held]
            exact fun connection held => settles.closed connection (closed connection held)
          · rw [settles.forwarders]
            exact fun connection spawned => settles.done connection (done connection spawned)

/-- What holds of the calls of `close` together. -/
structure Calls (proxy : Proxy) : Prop where
  established : ∀ caller, (proxy.closers caller).Established proxy
  entered : ∀ caller, (proxy.closers caller).First → proxy.closing = true
  only : ∀ caller other, (proxy.closers caller).First → (proxy.closers other).First →
    caller = other

theorem calls_started : Calls started where
  established := fun _ => trivial
  entered := nofun
  only := nofun

/-- Only a call of `close` moves one, or sets the event. -/
def Quiet (proxy reached : Proxy) : Prop :=
  reached.closers = proxy.closers ∧ reached.closing = proxy.closing

theorem serve_quiet {settings : Settings} {client : Client} {proxy reached : Proxy}
    (moved : proxy.serve settings client = some reached) : Quiet proxy reached := by
  unfold serve at moved
  cases place : proxy.serving with
  | accepting =>
      rw [place] at moved
      dsimp only at moved
      split at moved
      · cases moved
        exact ⟨rfl, rfl⟩
      · cases moved
  | negotiating connection =>
      rw [place] at moved
      cases moved
      unfold negotiated
      split
      · exact ⟨rfl, rfl⟩
      · split
        · exact ⟨rfl, rfl⟩
        · exact ⟨rfl, rfl⟩
  | tracking connection =>
      rw [place] at moved
      dsimp only at moved
      split at moved
      · cases moved
        exact ⟨rfl, rfl⟩
      · cases moved
        exact ⟨rfl, rfl⟩
  | returned =>
      rw [place] at moved
      cases moved
  | died =>
      rw [place] at moved
      cases moved
  | _ =>
      rw [place] at moved
      cases moved
      exact ⟨rfl, rfl⟩

theorem forward_quiet {connection : Nat} {raised : Option String} {proxy reached : Proxy}
    (moved : proxy.forward connection raised = some reached) : Quiet proxy reached := by
  unfold forward at moved
  cases place : proxy.forwarding connection with
  | leaving raised =>
      rw [place] at moved
      cases raised with
      | none =>
          cases moved
          exact ⟨rfl, rfl⟩
      | some text =>
          cases moved
          exact ⟨rfl, rfl⟩
  | idle =>
      rw [place] at moved
      cases moved
  | done =>
      rw [place] at moved
      cases moved
  | _ =>
      rw [place] at moved
      cases moved
      exact ⟨rfl, rfl⟩

/-- The place a call of `close` goes on to, and what it has established there. -/
structure Reaches (caller : Nat) (place : Closing) (proxy reached : Proxy) : Prop where
  closers : reached.closers = Function.update proxy.closers caller place
  established : place.Established reached
  first : place.First → (proxy.closers caller).First ∨ proxy.closing = false
  closing : reached.closing = true

/-- A first call that goes on to a place where `closing` is set and unchanged. -/
theorem Reaches.of_first {caller : Nat} {before place : Closing} {proxy reached : Proxy}
    (calls : Calls proxy) (stands : proxy.closers caller = before) (isFirst : before.First)
    (closers : reached.closers = Function.update proxy.closers caller place)
    (closing : reached.closing = proxy.closing) (established : place.Established reached) :
    Reaches caller place proxy reached := by
  have first : (proxy.closers caller).First := stands ▸ isFirst
  exact ⟨closers, established, fun _ => .inl first, closing.trans (calls.entered caller first)⟩

theorem close_reaches {caller : Nat} {proxy reached : Proxy} (owned : Owned proxy)
    (calls : Calls proxy) (moved : proxy.close caller = some reached) :
    ∃ place, Reaches caller place proxy reached := by
  have established := calls.established caller
  unfold close at moved
  cases place : proxy.closers caller with
  | entering =>
      rw [place] at moved
      dsimp only at moved
      split at moved
      next closing =>
        cases moved
        exact ⟨_, rfl, trivial, nofun, closing⟩
      next closing =>
        cases moved
        exact ⟨_, rfl, trivial, fun _ => .inr (Bool.eq_false_of_not_eq_true closing), rfl⟩
  | shutting forwarded =>
      rw [place] at moved
      cases forwarded with
      | nil =>
          cases moved
          exact ⟨_, .of_first calls place trivial rfl rfl trivial⟩
      | cons connection rest =>
          cases moved
          exact ⟨_, .of_first calls place trivial rfl rfl trivial⟩
  | reading =>
      rw [place] at moved
      dsimp only at moved
      split at moved
      · cases moved
        exact ⟨_, .of_first calls place trivial rfl rfl trivial⟩
      · cases moved
        exact ⟨_, .of_first calls place trivial rfl rfl trivial⟩
  | interrupting connection =>
      rw [place] at moved
      cases moved
      exact ⟨_, .of_first calls place trivial rfl rfl trivial⟩
  | waking =>
      rw [place] at moved
      cases moved
      exact ⟨_, .of_first calls place trivial rfl rfl trivial⟩
  | joining =>
      rw [place] at moved
      dsimp only at moved
      split at moved
      next returned =>
        cases moved
        exact ⟨_, .of_first calls place trivial rfl rfl returned⟩
      next died => exact absurd died owned.alive
      next => cases moved
  | stopping =>
      rw [place] at moved established
      cases moved
      exact ⟨_, .of_first calls place trivial rfl rfl ⟨⟨established, rfl⟩, fun _ => .inr⟩⟩
  | closing held =>
      rw [place] at moved established
      obtain ⟨stopped, closed⟩ := established
      cases held with
      | nil =>
          cases moved
          refine ⟨_, .of_first calls place trivial rfl rfl ⟨stopped, ?_, fun _ => .inr⟩⟩
          exact fun connection held => (closed connection held).resolve_right List.not_mem_nil
      | cons connection rest =>
          cases moved
          refine ⟨_, .of_first calls place trivial rfl rfl ⟨stopped, ?_⟩⟩
          intro other held
          rcases closed other held with shut | among
          · exact .inl ((closeConnection_closed connection other proxy).mpr (.inr shut))
          · rcases List.mem_cons.mp among with same | later
            · exact .inl ((closeConnection_closed connection other proxy).mpr (.inl same))
            · exact .inr later
  | awaiting forwarders =>
      rw [place] at moved established
      obtain ⟨stopped, closed, done⟩ := established
      cases forwarders with
      | nil =>
          cases moved
          refine ⟨_, .of_first calls place trivial rfl rfl ⟨stopped, closed, ?_⟩⟩
          exact fun connection spawned =>
            (done connection spawned).resolve_right List.not_mem_nil
      | cons connection rest =>
          dsimp only at moved
          split at moved
          next ended =>
            cases moved
            refine ⟨_, .of_first calls place trivial rfl rfl ⟨stopped, closed, ?_⟩⟩
            intro other spawned
            rcases done other spawned with finished | among
            · exact .inl finished
            · rcases List.mem_cons.mp among with rfl | later
              · exact .inl ended
              · exact .inr later
          next => cases moved
  | returned first =>
      rw [place] at moved
      cases moved

theorem Calls.quiet {settings : Settings} {move : Move} {proxy reached : Proxy}
    (calls : Calls proxy) (moved : step settings move proxy = some reached)
    (quiet : Quiet proxy reached) : Calls reached where
  established caller := by
    rw [quiet.1]
    exact (calls.established caller).step moved
  entered := by
    rw [quiet.1, quiet.2]
    exact calls.entered
  only := by
    rw [quiet.1]
    exact calls.only

theorem close_calls {settings : Settings} {caller : Nat} {proxy reached : Proxy}
    (owned : Owned proxy) (calls : Calls proxy)
    (moved : step settings (.close caller) proxy = some reached) : Calls reached := by
  obtain ⟨place, reaches⟩ := close_reaches owned calls moved
  have self : reached.closers caller = place := by
    rw [reaches.closers, Function.update_self]
  have others : ∀ other, other ≠ caller → reached.closers other = proxy.closers other := by
    intro other distinct
    rw [reaches.closers, Function.update_of_ne distinct]
  -- the place gone on to is a first call's only where no other call was one
  have alone : place.First → ∀ other, other ≠ caller → ¬ (reached.closers other).First := by
    intro first other distinct otherFirst
    rw [others other distinct] at otherFirst
    rcases reaches.first first with before | unset
    · exact distinct (calls.only other caller otherFirst before)
    · rw [calls.entered other otherFirst] at unset
      cases unset
  refine ⟨?_, fun _ _ => reaches.closing, ?_⟩
  · intro other
    by_cases same : other = caller
    · rw [same, self]
      exact reaches.established
    · rw [others other same]
      exact (calls.established other).step moved
  · intro one other oneFirst otherFirst
    by_cases oneSame : one = caller
    · by_cases otherSame : other = caller
      · rw [oneSame, otherSame]
      · rw [oneSame, self] at oneFirst
        exact absurd otherFirst (alone oneFirst other otherSame)
    · by_cases otherSame : other = caller
      · rw [otherSame, self] at otherFirst
        exact absurd oneFirst (alone otherFirst one oneSame)
      · rw [others one oneSame] at oneFirst
        rw [others other otherSame] at otherFirst
        exact calls.only one other oneFirst otherFirst

theorem step_calls {settings : Settings} {move : Move} {proxy reached : Proxy}
    (owned : Owned proxy) (calls : Calls proxy)
    (moved : step settings move proxy = some reached) : Calls reached := by
  cases move with
  | connect =>
      have connected := moved
      simp only [step] at connected
      split at connected
      · cases connected
        exact calls.quiet moved ⟨rfl, rfl⟩
      · cases connected
  | serve client => exact calls.quiet moved (serve_quiet moved)
  | forward connection raised => exact calls.quiet moved (forward_quiet moved)
  | close caller => exact close_calls owned calls moved

structure Sound (proxy : Proxy) : Prop where
  owned : Owned proxy
  queued : Queued proxy
  calls : Calls proxy

theorem run_sound {settings : Settings} {moves : List Move} {proxy reached : Proxy}
    (sound : Sound proxy) (ran : run settings moves proxy = some reached) : Sound reached := by
  refine run_keeps ?_ sound ran
  rintro move proxy reached ⟨owned, queued, calls⟩ moved
  exact ⟨step_owned owned moved, step_queued owned queued moved, step_calls owned calls moved⟩

/-- Once the first call of `close` returned, nobody has anything left to close. -/
theorem Sound.closed {proxy : Proxy} (sound : Sound proxy)
    (established : (Closing.returned true).Established proxy) :
    (∀ connection < proxy.accepted, (proxy.connections connection).closed = true) ∧
      ∀ connection, proxy.forwarding connection = .idle ∨ proxy.forwarding connection = .done := by
  obtain ⟨stopped, closed, done⟩ := established
  have ended : ∀ connection,
      proxy.forwarding connection = .idle ∨ proxy.forwarding connection = .done := by
    intro connection
    by_cases idle : proxy.forwarding connection = .idle
    · exact .inl idle
    · exact .inr (done connection (sound.owned.spawned connection idle))
  refine ⟨?_, ended⟩
  intro connection older
  rcases sound.owned.accounted connection older with shut | kept | held | holds
  · exact shut
  · rw [stopped.1] at kept
    cases kept
  · exact closed connection held
  · rcases ended connection with idle | finished
    · rw [idle] at holds
      cases holds
    · rw [finished] at holds
      cases holds

theorem run_settles {settings : Settings} {moves : List Move} {proxy reached : Proxy}
    (returned : proxy.serving = .returned) (ran : run settings moves proxy = some reached) :
    Settles proxy reached := by
  have start : Settles proxy proxy := ⟨returned, id, rfl, rfl, rfl, fun _ => id, fun _ => id⟩
  refine @run_keeps settings (Settles proxy) ?_ moves proxy reached start ran
  intro move middle after settles moved
  exact settles.trans (step_settles settles.serving moved)

theorem run_established {settings : Settings} {moves : List Move} {proxy reached : Proxy}
    {closing : Closing} (established : closing.Established proxy)
    (ran : run settings moves proxy = some reached) : closing.Established reached := by
  refine @run_keeps settings closing.Established ?_ moves proxy reached established ran
  intro move middle after held moved
  exact held.step moved

/-- Whatever the interleaving: once the first call of `close` has returned, every
connection ever accepted is closed, none is accepted any more and no forwarding thread
runs, then and ever after; another call finds the event set and returns, changing nothing;
and the queue has what ended each negotiation, in the order of acceptance, but the end the
accepting thread is about to put there, with what a forwarding thread raised behind its own
connection's request. -/
theorem close_closes (settings : Settings) {moves : List Move} {proxy : Proxy}
    (ran : run settings moves started = some proxy) :
    (∀ caller, proxy.closers caller = .returned true →
      ∀ more later, run settings more proxy = some later →
        later.listening = false ∧ later.accepted = proxy.accepted ∧
          (∀ connection < later.accepted, (later.connections connection).closed = true) ∧
          ∀ connection,
            later.forwarding connection = .idle ∨ later.forwarding connection = .done) ∧
      (∀ caller other, (proxy.closers caller).First → (proxy.closers other).First →
        caller = other) ∧
      (∀ caller, proxy.closing = true → proxy.closers caller = .entering →
        step settings (.close caller) proxy = some (proxy.closeAt caller (.returned false))) ∧
      ownEndings proxy.results ++ proxy.serving.unqueued = proxy.endings ∧
      Behind proxy.results := by
  have sound := run_sound ⟨owned_started, queued_started, calls_started⟩ ran
  refine ⟨?_, sound.calls.only, ?_, sound.queued.queue, sound.queued.behind⟩
  · intro caller returned more later continued
    have established := sound.calls.established caller
    rw [returned] at established
    have settles := run_settles established.1.1 continued
    have laterSound := run_sound sound continued
    exact ⟨settles.listening established.1.2, settles.accepted,
      laterSound.closed (run_established established continued)⟩
  · intro caller closing entering
    simp only [step, close, entering, closing, if_true]

def localClient : Client where
  arrivals := [.chunk 5 [1, 0], .chunk 5 [1, 0, 1, 127, 0, 0, 1, 0x20, 0x8d]]
  sent := []
  breaks := fun _ => none

/-- A client is tracked when `close` is called, and its thread started only then; what its
factory raises is not queued any more.  A second call is made while the first is waiting. -/
def overtaken : List Move :=
  [.connect] ++ List.replicate 6 (.serve localClient) ++ [.close 0] ++
    List.replicate 2 (.serve localClient) ++ List.replicate 4 (.close 0) ++ [.close 1] ++
    List.replicate 3 (.serve localClient) ++ List.replicate 3 (.close 0) ++
    List.replicate 4 (.forward 0 (some "no destination")) ++ List.replicate 2 (.close 0)

theorem close_closes_overtaken : ∃ proxy, run ⟨false, true⟩ overtaken started = some proxy ∧
    proxy.accepted = 2 ∧ (proxy.connections 0).closed = true ∧
    (proxy.connections 1).closed = true ∧
    ∀ more later, run ⟨false, true⟩ more proxy = some later → later.accepted = 2 := by
  have ends : (run ⟨false, true⟩ overtaken started).map
      (fun proxy => (proxy.closers 0, proxy.accepted)) = some (.returned true, 2) := by
    decide +kernel
  obtain ⟨proxy, ran, reached⟩ := Option.map_eq_some_iff.mp ends
  obtain ⟨returned, accepted⟩ := Prod.mk.inj reached
  have closes := (close_closes ⟨false, true⟩ ran).1 0 returned
  obtain ⟨-, -, closed, -⟩ := closes [] proxy rfl
  rw [accepted] at closed
  refine ⟨proxy, ran, accepted, closed 0 (by decide), closed 1 (by decide), ?_⟩
  intro more later continued
  exact (closes more later continued).2.1.trans accepted

end BitcoinNodeTests.Socks5
