import BitcoinNodeTests.Socks5.Owned

/-!
# What is in the queue

The accepting thread queues what ended a negotiation before it accepts the next
connection, so that the queue has one entry for each, in the order of acceptance; a
forwarding thread is started behind its own connection's request.
-/

set_option autoImplicit false

namespace BitcoinNodeTests.Socks5

open Proxy

attribute [local simp] change closeConnection shutdown endNegotiation put serveAt forwardAt closeAt

def Entry.ownEnding : Entry → Option (Nat × Ending)
  | .own connection ending => some (connection, ending)
  | .redirect _ _ => none

def ownEndings (results : List Entry) : List (Nat × Ending) := results.filterMap Entry.ownEnding

/-- What ended the negotiation of each connection whose negotiation ended, in the order
of acceptance. -/
def Proxy.endings (proxy : Proxy) : List (Nat × Ending) :=
  (List.range proxy.accepted).filterMap fun connection =>
    (proxy.connections connection).outcome.map (connection, ·)

/-- The accepting thread has the end of a negotiation and has not queued it. -/
def Serving.unqueued : Serving → List (Nat × Ending)
  | .closingFailed connection error => [(connection, .error error)]
  | .queueingFailed connection error => [(connection, .error error)]
  | .queueing connection request => [(connection, .ok request)]
  | _ => []

def Serving.Fresh (connection : Nat) : Serving → Prop
  | .checking fresh => fresh = connection
  | .refusing fresh => fresh = connection
  | .publishing fresh => fresh = connection
  | .negotiating fresh => fresh = connection
  | _ => False

def Serving.Forwards (connection : Nat) : Serving → Prop
  | .tracking forwards => forwards = connection
  | .spawning forwards => forwards = connection
  | _ => False

def Requested (results : List Entry) (connection : Nat) : Prop :=
  ∃ request, .own connection (.ok request) ∈ results

/-- What a forwarding raised is behind the request of its own connection. -/
def Behind (results : List Entry) : Prop :=
  ∀ before after connection text, results = before ++ .redirect connection text :: after →
    Requested before connection

structure Queued (proxy : Proxy) : Prop where
  fresh : ∀ connection, proxy.accepted ≤ connection ∨ proxy.serving.Fresh connection →
    (proxy.connections connection).outcome = none
  queue : ownEndings proxy.results ++ proxy.serving.unqueued = proxy.endings
  requested : ∀ connection,
    proxy.forwarding connection ≠ .idle ∨ proxy.serving.Forwards connection →
      Requested proxy.results connection
  behind : Behind proxy.results

theorem queued_started : Queued started where
  fresh := fun _ _ => rfl
  queue := rfl
  requested := by
    intro connection forwards
    rcases forwards with forwarding | serving
    · exact absurd rfl forwarding
    · cases serving
  behind := by
    intro before after connection text equal
    simp [started] at equal

theorem requested_append {results : List Entry} {connection : Nat} (entry : Entry)
    (requested : Requested results connection) : Requested (results ++ [entry]) connection := by
  obtain ⟨request, among⟩ := requested
  exact ⟨request, List.mem_append_left _ among⟩

/-- An entry goes to the end, where it must be behind what it needs. -/
theorem behind_append {results : List Entry} {entry : Entry} (behind : Behind results)
    (last : ∀ connection text, entry = .redirect connection text → Requested results connection) :
    Behind (results ++ [entry]) := by
  intro before after connection text equal
  rcases List.eq_nil_or_concat after with rfl | ⟨rest, final, rfl⟩
  · obtain ⟨rfl, same⟩ := List.append_inj' equal rfl
    exact last connection text (List.singleton_inj.mp same)
  · rw [List.concat_eq_append, ← List.cons_append, ← List.append_assoc] at equal
    obtain ⟨rfl, -⟩ := List.append_inj' equal rfl
    exact behind before rest connection text rfl

theorem ownEndings_append (results : List Entry) (entry : Entry) :
    ownEndings (results ++ [entry]) = ownEndings results ++ entry.ownEnding.toList := by
  unfold ownEndings
  rw [List.filterMap_append]
  cases entry with
  | own connection ending => rfl
  | redirect connection text => rfl

theorem endings_congr {proxy reached : Proxy} (accepted : reached.accepted = proxy.accepted)
    (outcome : ∀ connection, (reached.connections connection).outcome =
      (proxy.connections connection).outcome) : reached.endings = proxy.endings := by
  unfold endings
  rw [accepted]
  simp only [outcome]

/-- A step that queues nothing and ends no negotiation. -/
theorem Queued.aside {proxy reached : Proxy} (queued : Queued proxy)
    (accepted : reached.accepted = proxy.accepted)
    (outcome : ∀ connection, (reached.connections connection).outcome =
      (proxy.connections connection).outcome)
    (results : reached.results = proxy.results)
    (unqueued : reached.serving.unqueued = proxy.serving.unqueued)
    (fresh : ∀ connection, reached.serving.Fresh connection → proxy.serving.Fresh connection)
    (requested : ∀ connection,
      reached.forwarding connection ≠ .idle ∨ reached.serving.Forwards connection →
        proxy.forwarding connection ≠ .idle ∨ proxy.serving.Forwards connection) :
    Queued reached where
  fresh connection unended := by
    rw [accepted] at unended
    rw [outcome]
    exact queued.fresh connection (unended.imp_right (fresh connection))
  queue := by
    rw [results, unqueued, endings_congr accepted outcome]
    exact queued.queue
  requested connection forwards := by
    rw [results]
    exact queued.requested connection (requested connection forwards)
  behind := by
    rw [results]
    exact queued.behind

/-- A step that queues an entry: the one the accepting thread has, or one behind its own
request. -/
theorem Queued.put {proxy reached : Proxy} {entry : Entry} (queued : Queued proxy)
    (accepted : reached.accepted = proxy.accepted)
    (outcome : ∀ connection, (reached.connections connection).outcome =
      (proxy.connections connection).outcome)
    (results : reached.results = proxy.results ++ [entry])
    (unqueued : entry.ownEnding.toList ++ reached.serving.unqueued = proxy.serving.unqueued)
    (fresh : ∀ connection, reached.serving.Fresh connection → proxy.serving.Fresh connection)
    (requested : ∀ connection,
      reached.forwarding connection ≠ .idle ∨ reached.serving.Forwards connection →
        (proxy.forwarding connection ≠ .idle ∨ proxy.serving.Forwards connection) ∨
          ∃ request, entry = .own connection (.ok request))
    (behind : ∀ connection text, entry = .redirect connection text →
      Requested proxy.results connection) :
    Queued reached where
  fresh connection unended := by
    rw [accepted] at unended
    rw [outcome]
    exact queued.fresh connection (unended.imp_right (fresh connection))
  queue := by
    rw [results, ownEndings_append, List.append_assoc, unqueued,
      endings_congr accepted outcome]
    exact queued.queue
  requested connection forwards := by
    rw [results]
    rcases requested connection forwards with before | ⟨request, rfl⟩
    · exact requested_append entry (queued.requested connection before)
    · exact ⟨request, List.mem_append_right _ (List.mem_singleton_self _)⟩
  behind := by
    rw [results]
    exact behind_append queued.behind behind

theorem endings_accept {proxy : Proxy} (fresh : (proxy.connections proxy.accepted).outcome = none) :
    { proxy with accepted := proxy.accepted + 1 }.endings = proxy.endings := by
  unfold endings
  rw [List.range_succ, List.filterMap_append]
  simp [fresh]

theorem endings_endNegotiation {proxy : Proxy} {connection : Nat} {ending : Ending}
    (latest : connection + 1 = proxy.accepted)
    (fresh : (proxy.connections connection).outcome = none) :
    (proxy.endNegotiation connection ending).endings = proxy.endings ++ [(connection, ending)] := by
  have before : ∀ other ∈ List.range connection,
      (((proxy.endNegotiation connection ending).connections other).outcome.map (other, ·)) =
        (proxy.connections other).outcome.map (other, ·) := by
    intro other older
    have distinct : other ≠ connection := by
      rw [List.mem_range] at older
      omega
    simp [distinct]
  have reached : (proxy.endNegotiation connection ending).accepted = connection + 1 := latest.symm
  unfold endings
  rw [reached, ← latest, List.range_succ, List.filterMap_append, List.filterMap_append,
    List.filterMap_congr before]
  simp [fresh]

/-- The end of the latest connection's negotiation is the accepting thread's to queue. -/
theorem Queued.negotiated {proxy : Proxy} {connection : Nat} (queued : Queued proxy)
    (owned : Owned proxy) (place : proxy.serving = .negotiating connection) (ending : Ending)
    {serving : Serving} (unqueued : serving.unqueued = [(connection, ending)])
    (stale : ∀ other, ¬ serving.Fresh other) (keeps : ∀ other, ¬ serving.Forwards other) :
    Queued ((proxy.endNegotiation connection ending).serveAt serving) where
  fresh other unended := by
    rcases unended with later | fresh
    · have latest := owned.latest connection (by rw [place]; rfl)
      have distinct : other ≠ connection := by
        have later' : proxy.accepted ≤ other := later
        omega
      have before := queued.fresh other (.inl later)
      simpa [distinct] using before
    · exact absurd fresh (stale other)
  queue := by
    have latest := owned.latest connection (by rw [place]; rfl)
    have fresh := queued.fresh connection (.inr (by rw [place]; rfl))
    have before := queued.queue
    have nothing : (Serving.negotiating connection).unqueued = [] := rfl
    rw [place, nothing, List.append_nil] at before
    have ended : ((proxy.endNegotiation connection ending).serveAt serving).endings =
        proxy.endings ++ [(connection, ending)] := endings_endNegotiation latest fresh
    rw [ended, ← before]
    exact congrArg (ownEndings proxy.results ++ ·) unqueued
  requested other forwards := by
    rcases forwards with forwarding | serving
    · exact queued.requested other (.inl forwarding)
    · exact absurd serving (keeps other)
  behind := queued.behind

theorem serve_queued {settings : Settings} {client : Client} {proxy reached : Proxy}
    (owned : Owned proxy) (queued : Queued proxy)
    (moved : proxy.serve settings client = some reached) : Queued reached := by
  have still : ∀ connection, proxy.forwarding connection ≠ .idle ∨ False →
      proxy.forwarding connection ≠ .idle ∨ proxy.serving.Forwards connection :=
    fun _ => Or.imp_right False.elim
  unfold serve at moved
  cases place : proxy.serving with
  | accepting =>
      rw [place] at moved
      dsimp only at moved
      split at moved
      · cases moved
        refine ⟨?_, ?_, ?_, queued.behind⟩
        · intro connection unended
          refine queued.fresh connection (.inl ?_)
          rcases unended with later | fresh
          · exact Nat.le_of_succ_le later
          · exact Nat.le_of_eq fresh
        · have before := queued.queue
          rw [place] at before
          rw [← endings_accept (queued.fresh proxy.accepted (.inl le_rfl))] at before
          exact before
        · exact fun connection forwards => queued.requested connection (still connection forwards)
      · cases moved
  | checking connection =>
      rw [place] at moved
      cases moved
      split
      · exact queued.aside rfl (fun _ => rfl) rfl (by rw [place]; rfl) (by rw [place]; exact fun _ => id)
          still
      · exact queued.aside rfl (fun _ => rfl) rfl (by rw [place]; rfl) (by rw [place]; exact fun _ => id)
          still
  | refusing connection =>
      rw [place] at moved
      cases moved
      exact queued.aside rfl (closeConnection_outcome connection · proxy) rfl (by rw [place]; rfl)
        nofun still
  | publishing connection =>
      rw [place] at moved
      cases moved
      exact queued.aside rfl (fun _ => rfl) rfl (by rw [place]; rfl) (by rw [place]; exact fun _ => id)
        still
  | negotiating connection =>
      rw [place] at moved
      cases moved
      rcases negotiated_cases settings connection client proxy with
        ⟨request, ended⟩ | ⟨error, ended⟩
      · rw [ended]
        exact queued.negotiated owned place _ rfl nofun nofun
      · rw [ended]
        exact queued.negotiated owned place _ rfl nofun nofun
  | closingFailed connection error =>
      rw [place] at moved
      cases moved
      exact queued.aside rfl (closeConnection_outcome connection · proxy) rfl (by rw [place]; rfl)
        nofun still
  | queueingFailed connection error =>
      rw [place] at moved
      cases moved
      exact queued.put rfl (fun _ => rfl) rfl (by rw [place]; rfl) nofun
        (fun other forwards => .inl (still other forwards)) nofun
  | queueing connection request =>
      rw [place] at moved
      cases moved
      split
      · refine queued.put rfl (fun _ => rfl) rfl (by rw [place]; rfl) nofun ?_ nofun
        rintro other (forwarding | same)
        · exact .inl (.inl forwarding)
        · cases same
          exact .inr ⟨request, rfl⟩
      · exact queued.put rfl (fun _ => rfl) rfl (by rw [place]; rfl) nofun
          (fun other forwards => .inl (still other forwards)) nofun
  | tracking connection =>
      rw [place] at moved
      dsimp only at moved
      split at moved
      · cases moved
        exact queued.aside rfl (fun _ => rfl) rfl (by rw [place]; rfl) nofun still
      · cases moved
        exact queued.aside rfl (fun _ => rfl) rfl (by rw [place]; rfl) nofun
          (by rw [place]; exact fun _ => id)
  | holding connection =>
      rw [place] at moved
      cases moved
      exact queued.aside rfl (fun _ => rfl) rfl (by rw [place]; rfl) nofun still
  | spawning connection =>
      rw [place] at moved
      cases moved
      refine queued.aside rfl (fun _ => rfl) rfl (by rw [place]; rfl) nofun ?_
      intro other forwards
      by_cases same : other = connection
      · rw [place, same]
        exact .inr rfl
      · rcases forwards with forwarding | serving
        · exact .inl (by simpa [same] using forwarding)
        · cases serving
  | unpublishing =>
      rw [place] at moved
      cases moved
      exact queued.aside rfl (fun _ => rfl) rfl (by rw [place]; rfl) nofun still
  | returned =>
      rw [place] at moved
      cases moved
  | died => exact absurd place owned.alive

/-- A forwarding thread that goes on was started behind its own request. -/
theorem Queued.forwardAt {proxy : Proxy} (queued : Queued proxy) {connection : Nat}
    {forwarding : Forwarding} (started : proxy.forwarding connection ≠ .idle) :
    Queued (proxy.forwardAt connection forwarding) := by
  refine queued.aside rfl (fun _ => rfl) rfl rfl (fun _ => id) ?_
  intro other forwards
  by_cases same : other = connection
  · rw [same]
    exact .inl started
  · simpa [same] using forwards

theorem Queued.closeConnection {proxy : Proxy} (queued : Queued proxy) (connection : Nat) :
    Queued (proxy.closeConnection connection) :=
  queued.aside rfl (closeConnection_outcome connection · proxy) rfl rfl (fun _ => id) (fun _ => id)

theorem forward_queued {connection : Nat} {raised : Option String} {proxy reached : Proxy}
    (queued : Queued proxy) (moved : proxy.forward connection raised = some reached) :
    Queued reached := by
  unfold forward at moved
  have started (forwarding : Forwarding) (place : proxy.forwarding connection = forwarding)
      (busy : forwarding ≠ .idle) : proxy.forwarding connection ≠ .idle := by
    rw [place]
    exact busy
  cases place : proxy.forwarding connection with
  | idle =>
      rw [place] at moved
      cases moved
  | running =>
      rw [place] at moved
      cases moved
      exact queued.forwardAt (started _ place nofun)
  | leaving raised =>
      rw [place] at moved
      have busy := started _ place nofun
      cases raised with
      | none =>
          cases moved
          exact (queued.closeConnection connection).forwardAt busy
      | some text =>
          cases moved
          exact (queued.closeConnection connection).forwardAt busy
  | checking text =>
      rw [place] at moved
      cases moved
      exact queued.forwardAt (started _ place nofun)
  | queueing text =>
      rw [place] at moved
      cases moved
      have busy := started _ place nofun
      have told : Queued (proxy.put (.redirect connection text)) := by
        refine queued.put rfl (fun _ => rfl) rfl rfl (fun _ => id) (fun _ => .inl) ?_
        rintro _ _ ⟨⟩
        exact queued.requested connection (.inl busy)
      exact told.forwardAt busy
  | discarding =>
      rw [place] at moved
      cases moved
      have busy := started _ place nofun
      have discarded : Queued { proxy with
          forwarded := proxy.forwarded.filter (· ≠ connection) } := { queued with }
      exact discarded.forwardAt busy
  | done =>
      rw [place] at moved
      cases moved

theorem close_queued {caller : Nat} {proxy reached : Proxy} (queued : Queued proxy)
    (moved : proxy.close caller = some reached) : Queued reached := by
  have spares := close_spares moved
  refine queued.aside spares.accepted spares.outcome spares.results ?_ ?_ ?_
  · rw [spares.serving]
  · rw [spares.serving]
    exact fun _ => id
  · rw [spares.serving, spares.forwarding]
    exact fun _ => id

theorem step_queued {settings : Settings} {move : Move} {proxy reached : Proxy}
    (owned : Owned proxy) (queued : Queued proxy)
    (moved : step settings move proxy = some reached) : Queued reached := by
  cases move with
  | connect =>
      simp only [step] at moved
      split at moved
      · cases moved
        exact { queued with }
      · cases moved
  | serve client => exact serve_queued owned queued moved
  | forward connection raised => exact forward_queued queued moved
  | close caller => exact close_queued queued moved

end BitcoinNodeTests.Socks5
