import Mathlib.Logic.Function.Basic
import BitcoinNodeTests.Foundation.Arrivals
import BitcoinNodeTests.Foundation.Octets
import BitcoinNodeTests.Foundation.Steps

/-!
# Forwarding between two ends

`_forward`'s loop: `select`, then for each end it reports one read and the sending of what it
answered to the other end.  Between any two of its operations, and between any two parts of one
`sendall`, either end may send more, close or reset.
-/

set_option autoImplicit false

namespace BitcoinNodeTests.Socks5

open Foundation

def CHUNK : Nat := 4096

inductive End where
  | near
  | far
  deriving DecidableEq, Repr

def End.other : End → End
  | .near => .far
  | .far => .near

/-- The socket of one end: all that has arrived at it, what of that its reads have yet to
answer, the octets they answered, and the octets sent to it. -/
structure Socket where
  history : List (Arrival Octet)
  arrivals : List (Arrival Octet)
  read : List Octet
  sent : List Octet

/-- What a `recv` or a `sendall` raises; a `TimeoutError` is another `OSError`. -/
inductive SocketError where
  | connectionError (text : String)
  | osError (text : String)
  deriving DecidableEq, Repr

inductive Stop where
  | closed (end_ : End)
  | readFailed (end_ : End) (error : SocketError)
  | sendFailed (end_ : End) (unsent : List Octet) (error : SocketError)
  deriving DecidableEq, Repr

/-- `_forward` returns where an end closed, and where a `ConnectionError` was raised. -/
def Stop.result : Stop → Except SocketError Unit
  | .closed _ => .ok ()
  | .readFailed _ (.connectionError _) => .ok ()
  | .readFailed _ (.osError text) => .error (.osError text)
  | .sendFailed _ _ (.connectionError _) => .ok ()
  | .sendFailed _ _ (.osError text) => .error (.osError text)

/-- Where the loop is: what it does next, with the ends still to read in this turn. -/
inductive Place where
  | selecting
  | reading (end_ : End) (readable : List End)
  | sending (end_ : End) (data : List Octet) (readable : List End)
  | ended (stop : Stop)
  deriving DecidableEq, Repr

structure Relay where
  sockets : End → Socket
  place : Place

inductive Event where
  | arrives (end_ : End) (arrival : Arrival Octet)
  | selects (readable : End → Bool)
  | receives
  | sends (count : Nat)
  | fails (error : SocketError)

namespace Relay

def start : Relay where
  sockets _ := ⟨[], [], [], []⟩
  place := .selecting

def change (end_ : End) (socket : Socket) (relay : Relay) : Relay :=
  { relay with sockets := Function.update relay.sockets end_ socket }

/-- `for end in readable`, and back to `select` after the last. -/
def turn : List End → Place
  | [] => .selecting
  | end_ :: readable => .reading end_ readable

def receive (end_ : End) (readable : List End) (relay : Relay) : Option Relay :=
  let socket := relay.sockets end_
  match Arrival.recv CHUNK socket.arrivals with
  | (.octets data, later) =>
      some { relay.change end_ { socket with arrivals := later, read := socket.read ++ data } with
        place := .sending end_.other data readable }
  | (.interrupted .pending, _) => none
  | (.interrupted .quiet, later) =>
      some { relay.change end_ { socket with arrivals := later } with
        place := .ended (.readFailed end_ (.osError "timed out")) }
  | (.interrupted .closed, later) =>
      some { relay.change end_ { socket with arrivals := later } with place := .ended (.closed end_) }
  | (.interrupted .reset, later) =>
      some { relay.change end_ { socket with arrivals := later } with
        place := .ended (.readFailed end_ (.connectionError "Connection reset by peer")) }

/-- What `sendall` passes on at once, of the data it has left. -/
def send (end_ : End) (data : List Octet) (readable : List End) (count : Nat) (relay : Relay) :
    Option Relay :=
  let socket := relay.sockets end_
  if 0 < count then
    some { relay.change end_ { socket with sent := socket.sent ++ data.take count } with
      place := if data.drop count = [] then turn readable
        else .sending end_ (data.drop count) readable }
  else none

/-- `_forward`, one operation after another, and what arrives at its ends. -/
def step (event : Event) (relay : Relay) : Option Relay :=
  match event, relay.place with
  | .arrives end_ arrival, _ =>
      let socket := relay.sockets end_
      some (relay.change end_ { socket with
        history := socket.history ++ [arrival]
        arrivals := socket.arrivals ++ [arrival] })
  | .selects readable, .selecting =>
      some { relay with place := turn ([.near, .far].filter readable) }
  | .receives, .reading end_ readable => relay.receive end_ readable
  | .sends count, .sending end_ data readable => relay.send end_ data readable count
  | .fails error, .reading end_ _ => some { relay with place := .ended (.readFailed end_ error) }
  | .fails error, .sending end_ data _ =>
      some { relay with place := .ended (.sendFailed end_ data error) }
  | _, _ => none

end Relay

end BitcoinNodeTests.Socks5
