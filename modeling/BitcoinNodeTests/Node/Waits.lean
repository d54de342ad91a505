import BitcoinNodeTests.Foundation.Decimal
import BitcoinNodeTests.Foundation.Polling
import BitcoinNodeTests.Node.Rpc
import BitcoinNodeTests.Node.WaitForRpc

/-!
# Waiting on several nodes

The functions that poll the nodes of a topology over their RPC: for a condition, for a
connection or the end of one, for one tip and one mempool.
-/

set_option autoImplicit false

namespace BitcoinNodeTests

open Foundation

inductive WaitFailed where
  | timeoutError (text : String)
  | rpc (failure : RpcFailure)
  | valueError (text : String)
  | typeError
  | keyError
  deriving DecidableEq, Repr

/-- A value as a `set` holds it, where `True` is `1` and `False` is `0`. -/
inductive Hashed where
  | null
  | int (value : Int)
  | real (text : String)
  | str (text : String)
  deriving DecidableEq, Repr

/-- Nothing for a `list` or a `dict`, which `hash` refuses with a `TypeError`. -/
def Json.hashed : Json → Option Hashed
  | .null => some .null
  | .bool value => some (.int (if value then 1 else 0))
  | .int value => some (.int value)
  | .real text => some (.real text)
  | .str text => some (.str text)
  | .array _ => none
  | .object _ => none

def Json.isDict : Json → Bool
  | .object _ => true
  | _ => false

def Json.truthy : Json → Bool
  | .null => false
  | .bool value => value
  | .int value => value ≠ 0
  | .real text => text ≠ "0.0" && text ≠ "-0.0"
  | .str text => text ≠ ""
  | .array items => !items.isEmpty
  | .object fields => !fields.isEmpty

/-- The nodes of a topology behind their RPCs and one clock, over the states `ω` of the world.
`describe` is what `str` makes of an adapter, `repr` what it makes of a value, and `btcd` says
which of them is a `BtcdAdapter`. -/
structure Fleet (ω : Type) where
  call : Nat → String → List Json → ω → Except RpcFailure Json × ω
  ticker : Ticker ω
  scaled : Int → Int
  p2pAddress : Nat → String × Nat
  describe : Nat → String
  repr : Json → String
  btcd : Nat → Bool

abbrev WaitAction (ω α : Type) : Type := Action ω WaitFailed α

def outcome {ω α : Type} (result : Except WaitFailed α) : WaitAction ω α := fun world =>
  (result, world)

/-! ## What is read of an answer -/

def asMember (value : Json) : Except WaitFailed Hashed :=
  match value.hashed with
  | some hashed => .ok hashed
  | none => .error .typeError

def item (name : String) (peer : Json) : Except WaitFailed Json :=
  match peer.get name with
  | some value => .ok value
  | none => .error .keyError

def peerIds (peers : Json) : Except WaitFailed (List Hashed) :=
  match peers.asArray with
  | none => .ok []
  | some peers => (peers.filter Json.isDict).mapM fun peer => item "id" peer >>= asMember

def firstMatch (predicate : Json → Except WaitFailed Bool) :
    List Json → Except WaitFailed (Option Json)
  | [] => .ok none
  | peer :: rest =>
      if peer.isDict then do
        let matched ← predicate peer
        if matched then pure (some peer) else firstMatch predicate rest
      else firstMatch predicate rest

/-- Whether a `float` is at least a positive `int`, read off its `repr`. -/
def realAtLeast (bound : Nat) (text : String) : Bool :=
  match text.toList with
  | '-' :: _ => false
  | 'n' :: _ => false
  | 'i' :: _ => true
  | digits =>
      let mantissa := digits.takeWhile (· ≠ 'e')
      let exponent := (digits.dropWhile (· ≠ 'e')).drop 1
      let whole := mantissa.takeWhile (· ≠ '.')
      let fraction := (mantissa.dropWhile (· ≠ '.')).drop 1
      let scale : Int := (Decimal.readInt exponent).getD 0 - fraction.length
      let value := (Decimal.readDigits 0 (whole ++ fraction)).getD 0
      bound * 10 ^ (-scale).toNat ≤ value * 10 ^ scale.toNat

/-- `counters.get("pong", 0) >= 29`, for the `counters` of an entry that has them. -/
def ponged (counters : Json) : Except WaitFailed Bool :=
  match (counters.get "pong").getD (.int 0) with
  | .int value => .ok (29 ≤ value)
  | .bool _ => .ok false
  | .real text => .ok (realAtLeast 29 text)
  | _ => .error .typeError

def handshaken (peerId : Json) : List Json → Except WaitFailed Bool
  | [] => .ok false
  | peer :: rest =>
      if peer.isDict && decide (((peer.get "id").getD .null).hashed = peerId.hashed) then
        let counters := (peer.get "bytesrecv_per_msg").getD .null
        if counters.isDict then ponged counters else .ok true
      else handshaken peerId rest

def addrs (peers : List Json) : Except WaitFailed (List Hashed) :=
  peers.mapM fun peer => if peer.isDict then item "addr" peer >>= asMember else .error .typeError

/-- `frozenset(answer)`: the items of a list, the characters of a text, the keys of a `dict`. -/
def frozenset (answer : Json) : Except WaitFailed (List Hashed) :=
  match answer with
  | .array items => items.mapM asMember
  | .str text => .ok (text.toList.map fun char => .str (String.ofList [char]))
  | .object fields => .ok (fields.map fun field => .str field.1)
  | _ => .error .typeError

def sameSet (first second : List Hashed) : Bool :=
  first.all (· ∈ second) && second.all (· ∈ first)

def oneAmong {α : Type} (same : α → α → Bool) : List α → Bool
  | [] => false
  | value :: rest => rest.all (same value)

/-- `lambda peer: peer.get("addr") == address and not peer.get("inbound")` -/
def isDialled (address : String) (peer : Json) : Except WaitFailed Bool :=
  .ok (decide (((peer.get "addr").getD .null).hashed = some (.str address)) &&
    !((peer.get "inbound").getD .null).truthy)

/-- `lambda peer: bool(peer.get("inbound")) and peer.get("id") not in before_second` -/
def isArrival (before : List Hashed) (peer : Json) : Except WaitFailed Bool :=
  if ((peer.get "inbound").getD .null).truthy then do
    let id ← asMember ((peer.get "id").getD .null)
    pure (id ∉ before)
  else .ok false

namespace Fleet

variable {ω : Type} (fleet : Fleet ω)

def rpc (node : Nat) (method : String) (params : List Json) : WaitAction ω Json := fun world =>
  match fleet.call node method params world with
  | (.ok answer, reached) => (.ok answer, reached)
  | (.error failure, reached) => (.error (.rpc failure), reached)

theorem rpc_of_ok {node : Nat} {method : String} {params : List Json} {world reached : ω}
    {answer : Json} (answers : fleet.call node method params world = (.ok answer, reached)) :
    fleet.rpc node method params world = (.ok answer, reached) := by
  rw [rpc, answers]

def monotonic : WaitAction ω Int := fleet.ticker.monotonic

def address (node : Nat) : String :=
  s!"{(fleet.p2pAddress node).1}:{(fleet.p2pAddress node).2}"

/-! ## A condition -/

def conditionRound (predicate : WaitAction ω Bool) : WaitAction ω (Option Unit) := do
  let holds ← predicate
  pure (if holds then some () else none)

def waitUntil (predicate : WaitAction ω Bool) (timeout : Int) : WaitAction ω Unit := do
  let timeout := fleet.scaled timeout
  let now ← fleet.monotonic
  fleet.ticker.pollBefore (conditionRound predicate)
    (.timeoutError s!"condition not met within {seconds timeout} s") (now + timeout)

/-! ## Connections -/

/-- `dial`, and `BtcdAdapter.dial` -/
def dial (node : Nat) (address : String) (v2transport : Bool) : WaitAction ω Unit :=
  if fleet.btcd node then
    if v2transport then
      Action.raise (.valueError
        "btcd's addnode cannot ask for BIP324: start it --v2transport")
    else do
      let _ ← fleet.rpc node "addnode" [.str address, .str "onetry"]
      pure ()
  else do
    let _ ← fleet.rpc node "addnode" [.str address, .str "onetry", .bool v2transport]
    pure ()

def peerRound (node : Nat) (predicate : Json → Except WaitFailed Bool) :
    WaitAction ω (Option Json) := do
  let peers ← fleet.rpc node "getpeerinfo" []
  match peers.asArray with
  | none => pure none
  | some peers => outcome (firstMatch predicate peers)

def waitForPeer (node : Nat) (predicate : Json → Except WaitFailed Bool) (deadline : Int)
    (what : String) : WaitAction ω Json :=
  fleet.ticker.pollBefore (fleet.peerRound node predicate)
    (.timeoutError s!"{fleet.describe node} never reported {what} within the wait") deadline

def handshakeRound (node : Nat) (peerId : Json) : WaitAction ω (Option Unit) := do
  let peers ← fleet.rpc node "getpeerinfo" []
  match peers.asArray with
  | none => pure none
  | some peers => do
      let done ← outcome (handshaken peerId peers)
      pure (if done then some () else none)

def waitForHandshake (node : Nat) (peerId : Json) (deadline : Int) : WaitAction ω Unit :=
  fleet.ticker.pollBefore (fleet.handshakeRound node peerId)
    (.timeoutError (s!"{fleet.describe node} never completed its own handshake with peer " ++
      fleet.repr peerId)) deadline

def connectNodes (first second : Nat) (timeout : Int) (v2transport : Bool) :
    WaitAction ω Unit := do
  let timeout := fleet.scaled timeout
  let address := fleet.address second
  let peers ← fleet.rpc second "getpeerinfo" []
  let before ← outcome (peerIds peers)
  fleet.dial first address v2transport
  let now ← fleet.monotonic
  let deadline := now + timeout
  let firstPeer ← fleet.waitForPeer first (isDialled address) deadline
    s!"a connection to {fleet.describe second}"
  let secondPeer ← fleet.waitForPeer second (isArrival before) deadline
    s!"a connection from {fleet.describe first}"
  let firstId ← outcome (item "id" firstPeer)
  fleet.waitForHandshake first firstId deadline
  let secondId ← outcome (item "id" secondPeer)
  fleet.waitForHandshake second secondId deadline

def goneRound (node : Nat) (address : String) : WaitAction ω (Option Unit) := do
  let peers ← fleet.rpc node "getpeerinfo" []
  match peers.asArray with
  | none => pure none
  | some peers => do
      let listed ← outcome (addrs peers)
      pure (if .str address ∈ listed then none else some ())

def waitUntilDisconnected (node peer : Nat) (timeout : Int) : WaitAction ω Unit := do
  let timeout := fleet.scaled timeout
  let address := fleet.address peer
  let now ← fleet.monotonic
  fleet.ticker.pollBefore (fleet.goneRound node address)
    (.timeoutError (s!"{fleet.describe node} still reports a peer at {address} " ++
      s!"after {seconds timeout} s")) (now + timeout)

def disconnectNodes (first second : Nat) (timeout : Int) : WaitAction ω Unit := do
  let _ ← fleet.rpc first "disconnectnode" [.str (fleet.address second)]
  fleet.waitUntilDisconnected first second timeout

/-! ## Tips and mempools -/

def gather {α : Type} (method : String) (read : Json → Except WaitFailed α) :
    List Nat → WaitAction ω (List α)
  | [] => pure []
  | node :: rest => do
      let answer ← fleet.rpc node method []
      let value ← outcome (read answer)
      let others ← gather method read rest
      pure (value :: others)

def agreeRound {α : Type} (method : String) (read : Json → Except WaitFailed α)
    (same : α → α → Bool) (nodes : List Nat) : WaitAction ω (Option Unit) := do
  let values ← fleet.gather method read nodes
  pure (if oneAmong same values then some () else none)

def waitUntilAgree {α : Type} (method : String) (read : Json → Except WaitFailed α)
    (same : α → α → Bool) (what : String) (nodes : List Nat) (timeout : Int) :
    WaitAction ω Unit := do
  let timeout := fleet.scaled timeout
  let now ← fleet.monotonic
  fleet.ticker.pollBefore (fleet.agreeRound method read same nodes)
    (.timeoutError s!"nodes did not converge on one {what} within {seconds timeout} s")
    (now + timeout)

def sameHash (first second : Hashed) : Bool := first = second

def waitUntilTipsAgree (nodes : List Nat) (timeout : Int) : WaitAction ω Unit :=
  fleet.waitUntilAgree "getbestblockhash" asMember sameHash "tip" nodes timeout

def waitUntilMempoolsAgree (nodes : List Nat) (timeout : Int) : WaitAction ω Unit :=
  fleet.waitUntilAgree "getrawmempool" frozenset sameSet "mempool" nodes timeout

def syncAll (nodes : List Nat) (timeout : Int) : WaitAction ω Unit := do
  fleet.waitUntilTipsAgree nodes timeout
  fleet.waitUntilMempoolsAgree nodes timeout

end Fleet

end BitcoinNodeTests
