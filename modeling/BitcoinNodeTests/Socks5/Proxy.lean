import Mathlib.Logic.Function.Basic
import BitcoinNodeTests.Socks5.Negotiate

/-!
# The threads of a SOCKS5 proxy

The accepting thread, the forwarding threads and any number of calls of `close`, each
at a place in its own code, over what they share.  A step takes one of them past its
next operation on the lock, the listening socket, a connection or the queue; a section
under the lock is one step, nothing it touches being written outside it but the event,
which is only ever set.
-/

set_option autoImplicit false

namespace BitcoinNodeTests.Socks5

instance : DecidablePred Socks5Raised.Expected := fun error =>
  match error with
  | .indexError => isFalse id
  | .valueError _ => isTrue trivial
  | .connectionError _ => isTrue trivial
  | .connectionReset => isTrue trivial
  | .timeoutError => isTrue trivial
  | .sendFailed _ => isTrue trivial

abbrev Ending : Type := Except Socks5Raised Socks5Request

/-- `outcome` is what ended its negotiation, which nothing reads. -/
structure Connection where
  closed : Bool
  shut : Bool
  outcome : Option Ending

inductive Entry where
  | own (connection : Nat) (ending : Ending)
  | redirect (connection : Nat) (text : String)

inductive Serving where
  | accepting
  | checking (connection : Nat)
  | refusing (connection : Nat)
  | publishing (connection : Nat)
  | negotiating (connection : Nat)
  | closingFailed (connection : Nat) (error : Socks5Raised)
  | queueingFailed (connection : Nat) (error : Socks5Raised)
  | queueing (connection : Nat) (request : Socks5Request)
  | tracking (connection : Nat)
  | holding (connection : Nat)
  | spawning (connection : Nat)
  | unpublishing
  | returned
  | died

/-- Where the thread forwarding a connection is, `idle` before it is started. -/
inductive Forwarding where
  | idle
  | running
  | leaving (raised : Option String)
  | checking (text : String)
  | queueing (text : String)
  | discarding
  | done
  deriving DecidableEq

/-- Where a call of `close` is; `returned` says whether it was the first. -/
inductive Closing where
  | entering
  | shutting (forwarded : List Nat)
  | reading
  | interrupting (connection : Nat)
  | waking
  | joining
  | stopping
  | closing (held : List Nat)
  | awaiting (forwarders : List Nat)
  | returned (first : Bool)
  deriving DecidableEq

structure Proxy where
  listening : Bool
  backlog : Nat
  closing : Bool
  accepted : Nat
  connections : Nat → Connection
  negotiating : Option Nat
  held : List Nat
  forwarded : List Nat
  forwarders : List Nat
  results : List Entry
  serving : Serving
  forwarding : Nat → Forwarding
  closers : Nat → Closing

/-- What a proxy is constructed with: whether it offers username/password, and whether it
was given a factory. -/
structure Settings where
  authentication : Bool
  forwards : Bool

namespace Proxy

def started : Proxy where
  listening := true
  backlog := 0
  closing := false
  accepted := 0
  connections := fun _ => ⟨false, false, none⟩
  negotiating := none
  held := []
  forwarded := []
  forwarders := []
  results := []
  serving := .accepting
  forwarding := fun _ => .idle
  closers := fun _ => .entering

def change (connection : Nat) (edit : Connection → Connection) (proxy : Proxy) : Proxy :=
  { proxy with
    connections :=
      Function.update proxy.connections connection (edit (proxy.connections connection)) }

def closeConnection (connection : Nat) : Proxy → Proxy :=
  change connection fun state => { state with closed := true }

/-- `connection.shutdown(socket.SHUT_RDWR)`, its `OSError` suppressed -/
def shutdown (connection : Nat) : Proxy → Proxy :=
  change connection fun state => { state with shut := true }

def endNegotiation (connection : Nat) (ending : Ending) : Proxy → Proxy :=
  change connection fun state => { state with outcome := some ending }

def put (entry : Entry) (proxy : Proxy) : Proxy :=
  { proxy with results := proxy.results ++ [entry] }

def serveAt (serving : Serving) (proxy : Proxy) : Proxy := { proxy with serving := serving }

def forwardAt (connection : Nat) (forwarding : Forwarding) (proxy : Proxy) : Proxy :=
  { proxy with forwarding := Function.update proxy.forwarding connection forwarding }

def closeAt (caller : Nat) (closing : Closing) (proxy : Proxy) : Proxy :=
  { proxy with closers := Function.update proxy.closers caller closing }

/-- The end of a negotiation with `client`, as it answered: `_serve` catches what it is
expected to raise, and anything else ends the thread. -/
def negotiated (settings : Settings) (connection : Nat) (client : Client) (proxy : Proxy) : Proxy :=
  match (negotiate settings.authentication client).1 with
  | .ok request =>
      (proxy.endNegotiation connection (.ok request)).serveAt (.queueing connection request)
  | .error error =>
      if error.Expected then
        (proxy.endNegotiation connection (.error error)).serveAt (.closingFailed connection error)
      else { proxy with negotiating := none, serving := .died }

/-- The accepting thread's next operation: `_serve`, `_track` and `_forward_later`.  A
negotiation is one step, touching nothing but its own connection until it ends. -/
def serve (settings : Settings) (client : Client) (proxy : Proxy) : Option Proxy :=
  match proxy.serving with
  | .accepting =>
      if proxy.listening ∧ 0 < proxy.backlog then
        some { proxy with
          backlog := proxy.backlog - 1
          accepted := proxy.accepted + 1
          serving := .checking proxy.accepted }
      else none
  | .checking connection =>
      some (proxy.serveAt (if proxy.closing then .refusing connection else .publishing connection))
  | .refusing connection => some ((proxy.closeConnection connection).serveAt .returned)
  | .publishing connection =>
      some { proxy with negotiating := some connection, serving := .negotiating connection }
  | .negotiating connection => some (proxy.negotiated settings connection client)
  | .closingFailed connection error =>
      some ((proxy.closeConnection connection).serveAt (.queueingFailed connection error))
  | .queueingFailed connection error =>
      some ((proxy.put (.own connection (.error error))).serveAt .unpublishing)
  | .queueing connection request =>
      some ((proxy.put (.own connection (.ok request))).serveAt
        (if settings.forwards then .tracking connection else .holding connection))
  | .tracking connection =>
      if proxy.closing then some (proxy.serveAt (.holding connection))
      else some { proxy with
        forwarded := connection :: proxy.forwarded
        serving := .spawning connection }
  | .holding connection =>
      some { proxy with held := proxy.held ++ [connection], serving := .unpublishing }
  | .spawning connection =>
      some (({ proxy with forwarders := proxy.forwarders ++ [connection] }.forwardAt connection
        .running).serveAt .unpublishing)
  | .unpublishing => some { proxy with negotiating := none, serving := .accepting }
  | .returned => none
  | .died => none

/-- The next operation of the thread forwarding `connection`: `_redirect`.  What its
factory, its destination and its copying do is one step, which ends in what they raise. -/
def forward (connection : Nat) (raised : Option String) (proxy : Proxy) : Option Proxy :=
  match proxy.forwarding connection with
  | .idle => none
  | .running => some (proxy.forwardAt connection (.leaving raised))
  | .leaving none => some ((proxy.closeConnection connection).forwardAt connection .discarding)
  | .leaving (some text) =>
      some ((proxy.closeConnection connection).forwardAt connection (.checking text))
  | .checking text =>
      some (proxy.forwardAt connection (if proxy.closing then .discarding else .queueing text))
  | .queueing text => some ((proxy.put (.redirect connection text)).forwardAt connection .discarding)
  | .discarding =>
      some ({ proxy with forwarded := proxy.forwarded.filter (· ≠ connection) }.forwardAt connection
        .done)
  | .done => none

/-- The next operation of a call of `close`; a join lets it past once its thread ended. -/
def close (caller : Nat) (proxy : Proxy) : Option Proxy :=
  match proxy.closers caller with
  | .entering =>
      if proxy.closing then some (proxy.closeAt caller (.returned false))
      else some ({ proxy with closing := true }.closeAt caller (.shutting proxy.forwarded))
  | .shutting (connection :: rest) =>
      some ((proxy.shutdown connection).closeAt caller (.shutting rest))
  | .shutting [] => some (proxy.closeAt caller .reading)
  | .reading =>
      match proxy.negotiating with
      | none => some (proxy.closeAt caller .waking)
      | some connection => some (proxy.closeAt caller (.interrupting connection))
  | .interrupting connection => some ((proxy.shutdown connection).closeAt caller .waking)
  | .waking => some ({ proxy with backlog := proxy.backlog + 1 }.closeAt caller .joining)
  | .joining =>
      match proxy.serving with
      | .returned => some (proxy.closeAt caller .stopping)
      | .died => some (proxy.closeAt caller .stopping)
      | _ => none
  | .stopping => some ({ proxy with listening := false }.closeAt caller (.closing proxy.held))
  | .closing (connection :: rest) =>
      some ((proxy.closeConnection connection).closeAt caller (.closing rest))
  | .closing [] => some (proxy.closeAt caller (.awaiting proxy.forwarders))
  | .awaiting (connection :: rest) =>
      if proxy.forwarding connection = .done then some (proxy.closeAt caller (.awaiting rest))
      else none
  | .awaiting [] => some (proxy.closeAt caller (.returned true))
  | .returned _ => none

end Proxy

inductive Move where
  | connect
  | serve (client : Client)
  | forward (connection : Nat) (raised : Option String)
  | close (caller : Nat)

def step (settings : Settings) (move : Move) (proxy : Proxy) : Option Proxy :=
  match move with
  | .connect => if proxy.listening then some { proxy with backlog := proxy.backlog + 1 } else none
  | .serve client => proxy.serve settings client
  | .forward connection raised => proxy.forward connection raised
  | .close caller => proxy.close caller

/-- An interleaving: the steps of all threads and clients in the order they are made,
`none` where one of them cannot be made there. -/
def run (settings : Settings) : List Move → Proxy → Option Proxy
  | [], proxy => some proxy
  | move :: moves, proxy => (step settings move proxy).bind (run settings moves)

/-- What every step keeps holds after any steps in any order. -/
theorem run_keeps {settings : Settings} {holds : Proxy → Prop}
    (keeps : ∀ {move proxy reached}, holds proxy → step settings move proxy = some reached →
      holds reached) {moves : List Move} {proxy reached : Proxy} (start : holds proxy)
    (ran : run settings moves proxy = some reached) : holds reached := by
  induction moves generalizing proxy with
  | nil =>
      cases ran
      exact start
  | cons move moves ih =>
      obtain ⟨middle, moved, rest⟩ := Option.bind_eq_some_iff.mp ran
      exact ih (keeps start moved) rest

end BitcoinNodeTests.Socks5
