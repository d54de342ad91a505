import BitcoinNodeTests.Foundation.Action
import BitcoinNodeTests.Foundation.Arrivals
import BitcoinNodeTests.Foundation.Octets

/-!
# Negotiating a SOCKS5 request

The server half of the protocol over one client's connection: the method choice, the
credentials where the username/password method was chosen, and the `CONNECT`.
-/

set_option autoImplicit false

namespace BitcoinNodeTests.Socks5

open Foundation

def SOCKS_VERSION : Octet := 0x05
def NO_AUTHENTICATION : Octet := 0x00
def USERNAME_PASSWORD : Octet := 0x02
def NO_ACCEPTABLE_METHODS : Octet := 0xff
def AUTH_VERSION : Octet := 0x01
def AUTH_SUCCESS : Octet := 0x00
def CONNECT : Octet := 0x01
def SUCCESS_REPLY : List Octet := [SOCKS_VERSION, 0x00, 0x00, 0x01, 0, 0, 0, 0, 0, 0]

inductive AddressType where
  | ipv4
  | domainName
  | ipv6
  deriving DecidableEq, Repr

def AddressType.octet : AddressType → Octet
  | .ipv4 => 0x01
  | .domainName => 0x03
  | .ipv6 => 0x04

def AddressType.ofOctet (value : Octet) : Option AddressType :=
  if value = 0x01 then some .ipv4
  else if value = 0x03 then some .domainName
  else if value = 0x04 then some .ipv6
  else none

def AddressType.hostLength : AddressType → Option Nat
  | .ipv4 => some 4
  | .domainName => none
  | .ipv6 => some 16

structure Socks5Request where
  addressType : AddressType
  host : List Octet
  port : Nat
  username : Option (List Octet)
  password : Option (List Octet)
  deriving DecidableEq, Repr

/-- What a negotiation raises: `connectionReset`, `timeoutError` and `sendFailed` come
from the socket, the last with whatever text. -/
inductive Socks5Raised where
  | valueError (text : String)
  | connectionError (text : String)
  | connectionReset
  | timeoutError
  | sendFailed (text : String)
  | indexError
  deriving DecidableEq, Repr

/-- `ValueError`, `ConnectionError` or another `OSError` -/
def Socks5Raised.Expected : Socks5Raised → Prop
  | .indexError => False
  | _ => True

/-- A client's connection: what its reads answer, what was sent to it, and what the
sending of each reply raises. -/
structure Client where
  arrivals : List (Arrival Octet)
  sent : List (List Octet)
  breaks : Nat → Option String

abbrev Negotiation (α : Type) : Type := Action Client Socks5Raised α

/-- What a `recv` that answered no octet makes `_receive` raise: the connection has a
timeout, so that a client that sends nothing more is one that timed out. -/
def receiveRaised (received count : Nat) : Interruption → Socks5Raised
  | .pending => .timeoutError
  | .quiet => .timeoutError
  | .closed => .connectionError s!"connection closed after {received} of {count} octets"
  | .reset => .connectionReset

def receiveReader (count : Nat) : Reader Octet (List Octet) Empty := fun data =>
  if data.length < count then .more else .done data []

def receive (count : Nat) : Negotiation (List Octet) := fun client =>
  let result := await (fun data => count - data.length) (receiveReader count) [] client.arrivals
  let reached := { client with arrivals := result.arrivals }
  match result.outcome with
  | .returned data => (.ok data, reached)
  | .interrupted why => (.error (receiveRaised result.held.length count why), reached)

def sendall (reply : List Octet) : Negotiation Unit := fun client =>
  let reached := { client with sent := client.sent ++ [reply] }
  match client.breaks client.sent.length with
  | none => (.ok (), reached)
  | some text => (.error (.sendFailed text), reached)

def receiveOctet : Negotiation Octet := do
  let data ← receive 1
  match data with
  | [] => Action.raise .indexError
  | octet :: _ => pure octet

def receiveCounted : Negotiation (List Octet) := do
  let length ← receiveOctet
  receive length.toNat

def unpackError (count : Nat) (data : List Octet) : Socks5Raised :=
  if data.length < count then
    .valueError s!"not enough values to unpack (expected {count}, got {data.length})"
  else .valueError s!"too many values to unpack (expected {count})"

def checkVersion (received expected : Octet) (what : String) : Negotiation Unit :=
  if received ≠ expected then
    Action.raise (.valueError s!"{what} version {received}, not {expected}")
  else pure ()

/-- The method a proxy chooses among those offered, `none` where it accepts none. -/
def chooseMethod (authentication : Bool) (methods : List Octet) : Option Octet :=
  if authentication ∧ USERNAME_PASSWORD ∈ methods then some USERNAME_PASSWORD
  else if NO_AUTHENTICATION ∈ methods then some NO_AUTHENTICATION
  else none

def answerMethods (authentication : Bool) (methods : List Octet) : Negotiation Octet :=
  match chooseMethod authentication methods with
  | some method => do
      sendall [SOCKS_VERSION, method]
      pure method
  | none => do
      sendall [SOCKS_VERSION, NO_ACCEPTABLE_METHODS]
      Action.raise (.valueError
        s!"no acceptable method among {methods.map UInt8.toNat}")

/-- `_negotiate` up to the method reply. -/
def greet (authentication : Bool) : Negotiation Octet := do
  let data ← receive 2
  match data with
  | [version, methodCount] => do
      checkVersion version SOCKS_VERSION "SOCKS"
      let methods ← receive methodCount.toNat
      answerMethods authentication methods
  | data => Action.raise (unpackError 2 data)

def receiveAccount : Negotiation (List Octet × List Octet) := do
  let data ← receive 1
  match data with
  | [authVersion] => do
      checkVersion authVersion AUTH_VERSION "username/password"
      let username ← receiveCounted
      let password ← receiveCounted
      sendall [AUTH_VERSION, AUTH_SUCCESS]
      pure (username, password)
  | data => Action.raise (unpackError 1 data)

def authenticate (method : Octet) : Negotiation (Option (List Octet × List Octet)) :=
  if method = USERNAME_PASSWORD then do
    let account ← receiveAccount
    pure (some account)
  else pure none

def checkConnect (version command addressType : Octet) : Negotiation AddressType := do
  checkVersion version SOCKS_VERSION "SOCKS"
  if command ≠ CONNECT then Action.raise (.valueError s!"command {command}, not CONNECT")
  else match AddressType.ofOctet addressType with
    | some kind => pure kind
    | none => Action.raise (.valueError s!"{addressType} is not a valid AddressType")

def receiveKind : Negotiation AddressType := do
  let data ← receive 4
  match data with
  | [version, command, _, addressType] => checkConnect version command addressType
  | data => Action.raise (unpackError 4 data)

def receiveHostLength (kind : AddressType) : Negotiation Nat :=
  match kind.hostLength with
  | some length => pure length
  | none => do
      let length ← receiveOctet
      pure length.toNat

def receiveHost (kind : AddressType) : Negotiation (List Octet) := do
  let length ← receiveHostLength kind
  receive length

def fromBigEndian (data : List Octet) : Nat :=
  data.foldl (fun value octet => 256 * value + octet.toNat) 0

/-- `_negotiate` from the `CONNECT` on: the address type, the host and the port. -/
def receiveConnect : Negotiation (AddressType × List Octet × Nat) := do
  let kind ← receiveKind
  let host ← receiveHost kind
  let port ← receive 2
  sendall SUCCESS_REPLY
  pure (kind, host, fromBigEndian port)

def negotiate (authentication : Bool) : Negotiation Socks5Request := do
  let method ← greet authentication
  let account ← authenticate method
  let (kind, host, port) ← receiveConnect
  pure ⟨kind, host, port, account.map Prod.fst, account.map Prod.snd⟩

/-! ## What a client sends -/

def AddressType.Fits (kind : AddressType) (host : List Octet) : Prop :=
  match kind.hostLength with
  | some length => host.length = length
  | none => host.length < 256

/-- What a client puts into a negotiation, each field as long as its encoding can say. -/
structure Exchange where
  methods : List Octet
  username : List Octet
  password : List Octet
  reserved : Octet
  kind : AddressType
  host : List Octet
  port : Nat
  methodsFit : methods.length < 256
  usernameFits : username.length < 256
  passwordFits : password.length < 256
  hostFits : kind.Fits host
  portFits : port < 65536

/-- The octets after an octet that counts them. -/
def counted (octets : List Octet) : List Octet := UInt8.ofNat octets.length :: octets

namespace Exchange

def greeting (methods : List Octet) : List Octet := SOCKS_VERSION :: counted methods

def account (username password : List Octet) : List Octet :=
  AUTH_VERSION :: counted username ++ counted password

def connect (reserved : Octet) (kind : AddressType) (host : List Octet) (port : Nat) :
    List Octet :=
  [SOCKS_VERSION, CONNECT, reserved, kind.octet] ++
    (if kind.hostLength = none then counted host else host) ++
    [UInt8.ofNat (port / 256), UInt8.ofNat (port % 256)]

def encode (exchange : Exchange) (method : Octet) : List Octet :=
  greeting exchange.methods ++
    (if method = USERNAME_PASSWORD then account exchange.username exchange.password else []) ++
    connect exchange.reserved exchange.kind exchange.host exchange.port

def replies (method : Octet) : List (List Octet) :=
  [[SOCKS_VERSION, method]] ++
    (if method = USERNAME_PASSWORD then [[AUTH_VERSION, AUTH_SUCCESS]] else []) ++
    [SUCCESS_REPLY]

def request (exchange : Exchange) (method : Octet) : Socks5Request where
  addressType := exchange.kind
  host := exchange.host
  port := exchange.port
  username := if method = USERNAME_PASSWORD then some exchange.username else none
  password := if method = USERNAME_PASSWORD then some exchange.password else none

end Exchange

end BitcoinNodeTests.Socks5
