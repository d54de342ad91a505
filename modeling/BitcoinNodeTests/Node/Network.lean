import Mathlib.Logic.Function.Basic
import BitcoinNodeTests.Foundation.Course
import BitcoinNodeTests.Node.Waits

/-!
# Nodes that connect to each other

Each connection is a link with an end on the node that dialled and one on the node that
listens.  Either node lists its end, completes the handshake on it, has a `pong` over it and
forgets it at a moment of its own; `NetEvent` is one of these moments, and what happens while an
operation of the test lasts is any list of them.
-/

set_option autoImplicit false

namespace BitcoinNodeTests

open Foundation

inductive Side where
  | dialing
  | listening
  deriving DecidableEq, Repr

/-- One node's end of a link: the `id` it was given once the node took it up. -/
structure LinkEnd where
  id : Option Nat
  handshaken : Bool
  ponged : Bool
  gone : Bool
  deriving DecidableEq, Repr

def LinkEnd.fresh : LinkEnd := ⟨none, false, false, false⟩

structure PeerLink where
  node : Side → Nat
  theEnd : Side → LinkEnd

def PeerLink.fresh (dialer listener : Nat) : PeerLink :=
  ⟨fun side => match side with
    | .dialing => dialer
    | .listening => listener, fun _ => LinkEnd.fresh⟩

def PeerLink.withEnd (side : Side) (theEnd : LinkEnd) (link : PeerLink) : PeerLink :=
  { link with theEnd := Function.update link.theEnd side theEnd }

/-- The links, in the order they were dialled, and the `id` each node gives next. -/
structure Network where
  links : List PeerLink
  nextId : Nat → Nat

inductive NetEvent where
  | dialed (dialer listener : Nat)
  | registered (link : Nat) (side : Side)
  | greeted (link : Nat) (side : Side)
  | ponged (link : Nat) (side : Side)
  | dropped (link : Nat) (side : Side)
  deriving DecidableEq, Repr

namespace Network

def dial (dialer listener : Nat) (network : Network) : Network :=
  { network with links := network.links ++ [PeerLink.fresh dialer listener] }

def setEnd (index : Nat) (link : PeerLink) (side : Side) (theEnd : LinkEnd) (network : Network) :
    Network :=
  { network with links := network.links.set index (link.withEnd side theEnd) }

/-- An end is taken up once, and gets the next `id` of its node. -/
def register (index : Nat) (link : PeerLink) (side : Side) (network : Network) : Network :=
  let node := link.node side
  if (link.theEnd side).id.isSome then network
  else
    let taken := network.setEnd index link side
      { link.theEnd side with id := some (network.nextId node) }
    { taken with nextId := Function.update network.nextId node (network.nextId node + 1) }

/-- A handshake takes both nodes; a `pong` answers a `ping`, which goes out after it. -/
def apply (event : NetEvent) (network : Network) : Network :=
  match event with
  | .dialed dialer listener => network.dial dialer listener
  | .registered index side =>
      match network.links[index]? with
      | none => network
      | some link => network.register index link side
  | .greeted index side =>
      match network.links[index]? with
      | none => network
      | some link =>
          if (link.theEnd .dialing).id.isSome && (link.theEnd .listening).id.isSome &&
              !(link.theEnd side).gone then
            network.setEnd index link side { link.theEnd side with handshaken := true }
          else network
  | .ponged index side =>
      match network.links[index]? with
      | none => network
      | some link =>
          if (link.theEnd side).handshaken then
            network.setEnd index link side { link.theEnd side with ponged := true }
          else network
  | .dropped index side =>
      match network.links[index]? with
      | none => network
      | some link => network.setEnd index link side { link.theEnd side with gone := true }

end Network

/-- The nodes and what happens to them: what goes on, and for how many milliseconds, while each
operation of the test lasts.  `counts` says which nodes list an end before its handshake is
complete, and count what was received over it, as `bitcoind` does. -/
structure Topology where
  host : Nat → String
  port : Nat → Nat
  nodes : List Nat
  counts : Nat → Bool
  btcd : Nat → Bool
  ephemeral : Nat → String
  meanwhile : Nat → List NetEvent × Nat
  scaled : Int → Int
  describe : Nat → String
  repr : Json → String

abbrev NetWorld : Type := World Network

namespace Topology

variable (topology : Topology)

def address (node : Nat) : String := s!"{topology.host node}:{topology.port node}"

def course : Course Network NetEvent where
  apply := Network.apply
  during := topology.meanwhile

def pass : NetWorld → NetWorld := topology.course.pass

/-! ## `getpeerinfo` -/

def listed (link : PeerLink) (side : Side) : Bool :=
  (link.theEnd side).id.isSome && !(link.theEnd side).gone &&
    (topology.counts (link.node side) || (link.theEnd side).handshaken)

def addrOf (index : Nat) (link : PeerLink) (side : Side) : String :=
  match side with
  | .dialing => topology.address (link.node .listening)
  | .listening => topology.ephemeral index

def entry (index : Nat) (link : PeerLink) (side : Side) : Json :=
  .object ([("id", .int ((link.theEnd side).id.getD 0)),
    ("addr", .str (topology.addrOf index link side)),
    ("inbound", .bool (side = .listening))] ++
      if topology.counts (link.node side) then
        [("bytesrecv_per_msg",
          .object (if (link.theEnd side).ponged then [("pong", .int 32)] else []))]
      else [])

def entries (node index : Nat) (link : PeerLink) : List Json :=
  [Side.dialing, Side.listening].filterMap fun side =>
    if link.node side = node && topology.listed link side then
      some (topology.entry index link side)
    else none

def getPeerInfo (node : Nat) (network : Network) : List Json :=
  (network.links.mapIdx fun index link => topology.entries node index link).flatten

/-! ## The RPC -/

/-- `addnode` dials a node that listens at the address, and `disconnectnode` leaves it to the
node to forget the link. -/
def answer (node : Nat) (method : String) (params : List Json) (network : Network) :
    Except RpcFailure Json × Network :=
  match method, params with
  | "getpeerinfo", _ => (.ok (.array (topology.getPeerInfo node network)), network)
  | "addnode", .str address :: _ =>
      match topology.nodes.find? fun listener => topology.address listener = address with
      | some listener => (.ok .null, network.dial node listener)
      | none => (.ok .null, network)
  | "disconnectnode", .str address :: _ =>
      if (network.links.mapIdx fun index link => (index, link)).any fun place =>
          [Side.dialing, Side.listening].any fun side => place.2.node side = node &&
            topology.listed place.2 side && topology.addrOf place.1 place.2 side = address then
        (.ok .null, network)
      else (.error (.rpcError (-29) "Node not found in connected nodes"), network)
  | _, _ => (.error (.rpcError (-32601) "Method not found"), network)

def fleet : Fleet NetWorld where
  call node method params world :=
    let passed := topology.pass world
    let (outcome, network) := topology.answer node method params passed.state
    (outcome, { passed with state := network })
  ticker := topology.course.ticker
  scaled := topology.scaled
  p2pAddress node := (topology.host node, topology.port node)
  describe := topology.describe
  repr := topology.repr
  btcd := topology.btcd

end Topology

end BitcoinNodeTests
