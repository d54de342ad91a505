import BitcoinNodeTests.MiniWallet.Cache
import BitcoinNodeTests.Node.Rpc

/-!
# Mining into a node

The calls that read the tip off the node and mine on it, over a session: the wallet,
the world its node and its clock live in, and two logs that nothing reads, the
blocks `_mine_one` returned to `generate` and those the node answered `None` to.
-/

set_option autoImplicit false

namespace BitcoinNodeTests

open Foundation

/-- What a call raises.  `answered` is a `TypeError` whose text quotes the answer
between two others, `fromHex` the `ValueError` of `bytes.fromhex`, `outOfRange` what
`datetime.fromtimestamp` raises, `btclibValueError` whatever btclib raises. -/
inductive WalletRaised where
  | answered (before : String) (answer : Json) (after : String)
  | valueError (text : String)
  | lookupError (text : String)
  | runtimeError (text : String)
  | zeroDivisionError
  | indexError
  | fromHex (text : String)
  | outOfRange (time : Int)
  | btclibValueError
  | rpc (failure : RpcFailure)

structure Mined where
  height : Int
  block : Block
  time : Int

structure Session (ω : Type) where
  wallet : Wallet
  world : ω
  mined : List Mined
  accepted : List Mined

section Calls

variable {ω : Type}

def rpcCall (env : Environment ω) (method : String) (params : List Json) :
    Action ω WalletRaised Json := fun world =>
  match env.call method params world with
  | (.ok answer, reached) => (.ok answer, reached)
  | (.error failure, reached) => (.error (.rpc failure), reached)

def now (env : Environment ω) : Action ω WalletRaised Int := fun world =>
  let (time, reached) := env.clock world
  (.ok time, reached)

/-- An answer of btclib or of Python's own, or what it raises in its place. -/
def orRaise {σ α : Type} (error : WalletRaised) : Option α → Action σ WalletRaised α
  | some value => pure value
  | none => Action.raise error

def readTip (env : Environment ω) : Action ω WalletRaised (List Octet × Int × Int) := do
  let answer ← rpcCall env "getbestblockhash" []
  let bestHash ← orRaise (.answered "getbestblockhash answered " answer ", not a hash string")
    answer.asStr
  let count ← rpcCall env "getblockcount" []
  let height ← orRaise (.answered "getblockcount answered " count ", not an int") count.asInt
  let chainInfo ← rpcCall env "getblockchaininfo" []
  let medianTime ← orRaise
    (.answered "getblockchaininfo answered " chainInfo ", no int mediantime")
    ((chainInfo.get "mediantime").bind Json.asInt)
  let tip ← orRaise (.fromHex bestHash) (fromHex bestHash)
  pure (tip, height, medianTime)

/-! ## Mining one block -/

def REGTEST_SUBSIDY_HALVING_INTERVAL : Int := 150

/-- The timestamps of the years 1 to 9999. -/
def InDatetimeRange (time : Int) : Prop := -62135596800 ≤ time ∧ time < 253402300800

instance (time : Int) : Decidable (InDatetimeRange time) :=
  inferInstanceAs (Decidable (_ ∧ _))

structure MineOptions where
  version : Int
  extraOutputScript : Option (List Octet)
  blockTime : Option Int

def MineOptions.default (lib : Btclib) : MineOptions := ⟨lib.miningVersion, none, none⟩

/-- The coinbase of `_mine_one`, before `build_block` commits it to the witnesses. -/
def coinbaseFor (lib : Btclib) (height : Int) (scriptPubKey : List Octet)
    (extraOutputScript : Option (List Octet)) : Option Tx := do
  let coinbase ← lib.buildCoinbase height scriptPubKey REGTEST_SUBSIDY_HALVING_INTERVAL
  match extraOutputScript with
  | none => some coinbase
  | some script =>
      if lib.validTxOut ⟨0, script⟩ then
        some { coinbase with vout := coinbase.vout ++ [⟨0, script⟩] }
      else none

/-- The time of a block: as named, or the clock's, which it is never behind `minTime` by. -/
def chooseTime (env : Environment ω) (minTime : Int) : Option Int → Action ω WalletRaised Int
  | some time => pure time
  | none => do
      let clock ← now env
      pure (max clock (minTime + 1))

def mineOne (lib : Btclib) (env : Environment ω) (tip : List Octet) (height minTime : Int)
    (scriptPubKey : List Octet) (extraTransactions : List Tx) (options : MineOptions) :
    Action ω WalletRaised (Block × Int) := do
  let coinbase ← orRaise .btclibValueError
    (coinbaseFor lib height scriptPubKey options.extraOutputScript)
  let blockTime ← chooseTime env minTime options.blockTime
  if InDatetimeRange blockTime then
    let candidate ← orRaise .btclibValueError
      (lib.buildBlock tip (coinbase :: extraTransactions) blockTime options.version)
    let solved ← orRaise
      (.runtimeError s!"no nonce solved height {height} within the search bound")
      (lib.mine candidate.header)
    pure (⟨solved, candidate.transactions⟩, blockTime)
  else Action.raise (.outOfRange blockTime)

def buildForkFrom (lib : Btclib) (env : Environment ω) (scriptPubKey : List Octet) :
    Nat → List Octet → Int → Int → Action ω WalletRaised (List Block)
  | 0, _, _, _ => pure []
  | count + 1, tip, height, lastTime => do
      let (block, time) ← mineOne lib env tip (height + 1) lastTime scriptPubKey [] (.default lib)
      let rest ← buildForkFrom lib env scriptPubKey count (lib.blockHash block.header) (height + 1)
        time
      pure (block :: rest)

def buildFork (lib : Btclib) (env : Environment ω) (scriptPubKey : List Octet) (length : Int) :
    Action ω WalletRaised (List Block) := do
  let (tip, height, medianTime) ← readTip env
  buildForkFrom lib env scriptPubKey length.toNat tip height medianTime

end Calls

namespace Session

variable {ω : Type}

def onWorld {α : Type} (action : Action ω WalletRaised α) :
    Action (Session ω) WalletRaised α := fun session =>
  let (result, reached) := action session.world
  (result, { session with world := reached })

def onWallet (change : Wallet → Wallet) : Action (Session ω) WalletRaised Unit :=
  Action.update fun session => { session with wallet := change session.wallet }

def construct (env : Environment ω) : Action ω WalletRaised Wallet := do
  let (tip, height, lastTime) ← readTip env
  pure ⟨[], ∅, tip, height, lastTime⟩

/-! ## `resync` -/

/-- The height `resync` reads off an answer of `gettxout`, `none` where it raises. -/
def heightOfAnswer (tipHeight : Int) : Json → Option Int
  | .null => some 0
  | answer =>
      match (answer.get "confirmations").bind Json.asInt with
      | some confirmations =>
          if confirmations < 1 then none else some (tipHeight - confirmations + 1)
      | none => none

def readHeight (env : Environment ω) (tipHeight : Int) (utxo : Utxo) :
    Action ω WalletRaised Int := do
  let answer ← rpcCall env "gettxout"
    [.str (hex utxo.outpoint.txId), .int utxo.outpoint.vout, .bool false]
  orRaise (.answered "gettxout answered " answer ", no confirmations")
    (heightOfAnswer tipHeight answer)

/-- The body of `resync`'s loop: a coinbase is left as it is. -/
def resyncCoin (env : Environment ω) (index : Nat) (utxo : Utxo) :
    Action (Session ω) WalletRaised Unit :=
  if utxo.coinbase then pure ()
  else do
    let tipHeight ← Action.read fun session => session.wallet.height
    let height ← onWorld (readHeight env tipHeight utxo)
    onWallet fun wallet =>
      { wallet with utxos := wallet.utxos.set index { utxo with height := height } }

def resyncFrom (env : Environment ω) (index : Nat) :
    List Utxo → Action (Session ω) WalletRaised Unit
  | [] => pure ()
  | utxo :: rest => do
      resyncCoin env index utxo
      resyncFrom env (index + 1) rest

def resync (env : Environment ω) : Action (Session ω) WalletRaised Unit := do
  let (tip, height, lastTime) ← onWorld (readTip env)
  onWallet fun wallet => { wallet with tip := tip, height := height, lastTime := lastTime }
  let utxos ← Action.read fun session => session.wallet.utxos
  resyncFrom env 0 utxos

/-! ## `generate` -/

def mempoolTxSpends (lib : Btclib) (env : Environment ω) (txid : Json) :
    Action ω WalletRaised (List OutPoint) := do
  let answer ← rpcCall env "getrawtransaction" [txid]
  let text ← orRaise (.answered "getrawtransaction answered " answer ", not a hex string")
    answer.asStr
  let octets ← orRaise (.fromHex text) (fromHex text)
  let tx ← orRaise .btclibValueError (lib.parse octets)
  pure tx.spends

def mempoolSpendsOf (lib : Btclib) (env : Environment ω) :
    List Json → Action ω WalletRaised (List OutPoint)
  | [] => pure []
  | txid :: rest => do
      let spent ← mempoolTxSpends lib env txid
      let later ← mempoolSpendsOf lib env rest
      pure (spent ++ later)

def mempoolSpends (lib : Btclib) (env : Environment ω) : Action ω WalletRaised (List OutPoint) := do
  let answer ← rpcCall env "getrawmempool" []
  let txids ← orRaise (.answered "getrawmempool answered " answer ", not a list of txids")
    answer.asArray
  mempoolSpendsOf lib env txids

def coinbaseCoin (lib : Btclib) (height : Int) (coinbase : Tx) : Utxo :=
  ⟨⟨lib.txId coinbase, 0⟩, lib.subsidy height REGTEST_SUBSIDY_HALVING_INTERVAL, height, true⟩

/-- What `generate` does with a block once the node has answered: cache its coinbase
and move to it. -/
def recordBlock (lib : Btclib) (height : Int) (block : Block) (blockTime : Int) (coinbase : Tx)
    (wallet : Wallet) : Wallet :=
  { wallet with
    utxos := wallet.utxos ++ [coinbaseCoin lib height coinbase]
    tip := lib.blockHash block.header
    height := height
    lastTime := blockTime }

def forgetMempoolSpends (lib : Btclib) (env : Environment ω) (added : List OutPoint) :
    Action (Session ω) WalletRaised Unit :=
  if added = [] then pure ()
  else do
    let spent ← onWorld (mempoolSpends lib env)
    onWallet (Wallet.forget (added.filter (· ∈ spent)))

def scanAccepted (lib : Btclib) (env : Environment ω) (height : Int) (extra : List Tx) :
    Action (Session ω) WalletRaised Unit := do
  let before ← Action.read wallet
  let (added, scanned) := before.scanConfirmed lib extra
  onWallet fun _ => scanned.confirmAt lib height extra
  forgetMempoolSpends lib env added

/-- What `submitblock` answers to a block is `None`, or raises. -/
def expectAccepted {σ : Type} (height : Int) : Json → Action σ WalletRaised Unit
  | .null => pure ()
  | answer => Action.raise (.answered s!"submitblock refused height {height}: " answer "")

def generateNext (lib : Btclib) (env : Environment ω) (extra : List Tx) :
    Action (Session ω) WalletRaised (List Octet) := do
  let wallet ← Action.read wallet
  let height := wallet.height + 1
  let (block, blockTime) ← onWorld
    (mineOne lib env wallet.tip height wallet.lastTime lib.anyoneCanSpend extra (.default lib))
  Action.update fun session =>
    { session with mined := session.mined ++ [⟨height, block, blockTime⟩] }
  let octets ← orRaise .btclibValueError (lib.serializeBlock block)
  let answer ← onWorld (rpcCall env "submitblock" [.str (hex octets)])
  expectAccepted height answer
  Action.update fun session =>
    { session with accepted := session.accepted ++ [⟨height, block, blockTime⟩] }
  scanAccepted lib env height extra
  let coinbase ← orRaise .indexError block.transactions.head?
  onWallet (recordBlock lib height block blockTime coinbase)
  pure (lib.blockHash block.header)

def generateLoop (lib : Btclib) (env : Environment ω) :
    Nat → List Tx → Action (Session ω) WalletRaised (List (List Octet))
  | 0, _ => pure []
  | count + 1, extra => do
      let hash ← generateNext lib env extra
      let rest ← generateLoop lib env count []
      pure (hash :: rest)

def generate (lib : Btclib) (env : Environment ω) (count : Int) (confirm : List Tx) :
    Action (Session ω) WalletRaised (List (List Octet)) :=
  generateLoop lib env count.toNat confirm

end Session

end BitcoinNodeTests
