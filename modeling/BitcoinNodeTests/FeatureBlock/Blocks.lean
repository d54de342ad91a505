import BitcoinNodeTests.Foundation.Action
import BitcoinNodeTests.Foundation.Dict
import BitcoinNodeTests.MiniWallet.Transaction

/-!
# The blocks of `FullBlockTest`

The bookkeeping of `_Chain`: blocks by their names, heights by the hashes of their
headers.  A call that raises leaves what it changed before it did.
-/

set_option autoImplicit false

namespace BitcoinNodeTests.FeatureBlock

open Foundation

def VERSION : Int := 4

def TX_VERSION : Int := 2

def MAX_SEQUENCE_NONFINAL : Int := 0xfffffffe

def SEQUENCE_FINAL : Int := 0xffffffff

inductive Command where
  | op (name : String)
  | number (value : Int)
  | data (octets : List Octet)

/-- The parts of btclib and ecc these blocks are made with, `none` where they raise, and the
constants taken from them. -/
structure FeatureLib extends Btclib where
  merkleRoot : List Tx → Option (List Octet)
  scriptSerialize : List Command → Option (List Octet)
  /-- `sig_hash.legacy` of the given script, with `sig_hash.ALL` -/
  sigHashLegacy : List Octet → Tx → Nat → Option (List Octet)
  /-- `rfc6979_nonce_`, of `_KEY` and the extra entropy -/
  rfc6979Nonce : List Octet → String → Int
  /-- `sign_` of a digest with `_KEY` and a nonce, serialized -/
  sign : List Octet → Int → Option (List Octet)
  /-- `_GENESIS_HASH` -/
  genesisHash : List Octet
  /-- `_HALVING_INTERVAL` -/
  halvingInterval : Int
  /-- `_COINBASE_SCRIPT` -/
  coinbaseScript : List Octet
  /-- `_OP_TRUE` -/
  opTrue : List Octet
  /-- `REGTEST_POW_LIMIT_BITS` -/
  powLimitBits : List Octet

inductive FeatureError where
  | assertionError (what : String)
  | nameKeyError (name : String)
  | hashKeyError (hash : List Octet)
  | indexError
  | btclibError
  | timeError
  deriving DecidableEq, Repr

/-- `_Chain`, without what only its steps use -/
structure Chain where
  startTime : Int
  blocks : Dict String Block
  heights : Dict (List Octet) Int
  tip : Option Block
  signingFor : String

abbrev ChainAction (α : Type) : Type := Action Chain FeatureError α

def orRaise {α : Type} (error : FeatureError) : Option α → Except FeatureError α
  | none => .error error
  | some value => .ok value

/-- What computes without the bookkeeping, in an action. -/
def settle {α : Type} (result : Except FeatureError α) : ChainAction α := fun chain =>
  (result, chain)

section Make

variable (lib : FeatureLib)

def solve (header : Header) : Except FeatureError Header :=
  orRaise (.assertionError "no nonce solves the header") (lib.mine { header with nonce := 0 })

/-- `datetime.fromtimestamp(time, UTC)` has a year from 1 to 9999. -/
def inDatetimeRange (time : Int) : Bool := -62135596800 ≤ time && time ≤ 253402300799

def makeBlock (previous : List Octet) (transactions : List Tx) (time version : Int)
    (bits : List Octet) : Except FeatureError Block := do
  let merkleRoot ← orRaise .btclibError (lib.merkleRoot transactions)
  if inDatetimeRange time then
    let header ← solve lib ⟨version, previous, merkleRoot, time, bits, 0⟩
    pure ⟨header, transactions⟩
  else .error .timeError

def coinbaseScriptSig (height : Int) : Except FeatureError (List Octet) :=
  orRaise .btclibError (lib.scriptSerialize
    (if height ≤ 16 then [.op s!"OP_{height}", .op "OP_0"] else [.number height]))

def nullOutPoint : OutPoint := ⟨List.replicate 32 0, 0xffffffff⟩

/-- `_coinbase`, with the script its height gives, and neither its lock time nor its sequence
chosen -/
def coinbase (height value : Int) (extraOutputs : List TxOut) : Except FeatureError Tx := do
  let scriptSig ← coinbaseScriptSig lib height
  let paid : TxOut := ⟨value, lib.coinbaseScript⟩
  if lib.validTxOut paid then
    pure ⟨TX_VERSION, height - 1, [⟨nullOutPoint, scriptSig, MAX_SEQUENCE_NONFINAL, []⟩],
      paid :: extraOutputs⟩
  else .error .btclibError

def createTx (spend : Tx) (n : Nat) (value : Int) (script : List Octet) :
    Except FeatureError Tx :=
  if n < spend.vout.length then
    .ok ⟨TX_VERSION, 0, [⟨⟨lib.txId spend, n⟩, [], SEQUENCE_FINAL, []⟩], [⟨value, script⟩]⟩
  else .error (.assertionError "no such output to spend")

/-- `_with_script_sig` of input 0 -/
def withScriptSig (tx : Tx) (scriptSig : List Octet) : Except FeatureError Tx :=
  match tx.vin with
  | [] => .error .indexError
  | old :: rest => .ok { tx with vin := ⟨old.prevOut, scriptSig, old.sequence, []⟩ :: rest }

def signaturePush (signingFor : String) (tx : Tx) (vinI : Nat) (script : List Octet) :
    Except FeatureError (List Octet) := do
  let digest ← orRaise .btclibError (lib.sigHashLegacy script tx vinI)
  let signature ← orRaise .btclibError (lib.sign digest (lib.rfc6979Nonce digest signingFor))
  orRaise .btclibError (lib.scriptSerialize [.data (signature ++ [1])])

def signTx (signingFor : String) (tx spend : Tx) : Except FeatureError Tx :=
  match spend.vout with
  | [] => .error .indexError
  | spent :: _ =>
      if spent.scriptPubKey.take 1 = lib.opTrue then withScriptSig tx []
      else do
        let push ← signaturePush lib signingFor tx 0 spent.scriptPubKey
        withScriptSig tx push

end Make

/-! ## The calls -/

section Calls

variable (lib : FeatureLib)

def Chain.init (startTime : Int) : Chain :=
  ⟨startTime, .empty, Dict.empty.set lib.genesisHash 0, none, ""⟩

def blockOf (name : String) : ChainAction Block := do
  let found ← Action.read fun chain : Chain => chain.blocks.get name
  settle (orRaise (.nameKeyError name) found)

def heightOf (hash : List Octet) : ChainAction Int := do
  let found ← Action.read fun chain : Chain => chain.heights.get hash
  settle (orRaise (.hashKeyError hash) found)

def popHeight (hash : List Octet) : ChainAction Int := do
  let height ← heightOf hash
  Action.update fun chain => { chain with heights := chain.heights.erase hash }
  pure height

def height (name : String) : ChainAction Int := do
  let block ← blockOf name
  heightOf (lib.blockHash block.header)

def Chain.registered (name : String) (block : Block) (height : Int) (chain : Chain) : Chain :=
  { chain with
    tip := some block
    heights := chain.heights.set (lib.blockHash block.header) height
    blocks := chain.blocks.set name block }

def register (name : String) (block : Block) (height : Int) : ChainAction Block := do
  Action.update (Chain.registered lib name block height)
  pure block

structure NextBlock where
  spend : Option Tx
  additionalCoinbaseValue : Int
  script : List Octet
  version : Int
  additionalOutputScripts : List (List Octet)

def nextOf (args : NextBlock) (signingFor : String) (previous : List Octet)
    (blockTime height : Int) : Except FeatureError Block := do
  let value := lib.subsidy height lib.halvingInterval + args.additionalCoinbaseValue
  let outputs := args.additionalOutputScripts.map fun script => (⟨0, script⟩ : TxOut)
  match args.spend with
  | none => do
      let first ← coinbase lib height value outputs
      makeBlock lib previous [first] blockTime args.version lib.powLimitBits
  | some spend =>
      match spend.vout with
      | [] => .error .indexError
      | spent :: _ => do
          let unsigned ← createTx lib spend 0 1 args.script
          let signed ← signTx lib signingFor unsigned spend
          let first ← coinbase lib height (value + (spent.value - 1)) outputs
          makeBlock lib previous [first, signed] blockTime args.version lib.powLimitBits

/-- The hash of the block the next one follows, and the time of the next. -/
def Chain.next (chain : Chain) : List Octet × Int :=
  match chain.tip with
  | none => (lib.genesisHash, chain.startTime + 1)
  | some tip => (lib.blockHash tip.header, tip.header.time + 1)

def nextBlock (name : String) (args : NextBlock) : ChainAction Block := do
  let built ← Action.read fun chain : Chain => chain.blocks.get name
  if built.isSome then Action.raise (.assertionError s!"{name} built twice")
  else do
    Action.update fun chain => { chain with signingFor := name }
    let next ← Action.read (Chain.next lib)
    let parent ← heightOf next.1
    let block ← settle (nextOf lib args name next.1 next.2 (parent + 1))
    register lib name block (parent + 1)

def rebuilt (old : Block) (transactions : List Tx) (time : Option Int) :
    Except FeatureError Block :=
  makeBlock lib old.header.previousBlockHash transactions (time.getD old.header.time)
    old.header.version old.header.bits

def rebuild (name : String) (transactions : List Tx) (time : Option Int) :
    ChainAction Block := do
  let old ← blockOf name
  let height ← popHeight (lib.blockHash old.header)
  let block ← settle (rebuilt lib old transactions time)
  register lib name block height

def updateBlock (name : String) (newTransactions : List Tx) (time : Option Int) :
    ChainAction Block := do
  let old ← blockOf name
  rebuild lib name (old.transactions ++ newTransactions) time

def updateCoinbase (name : String) (coinbase : Tx) : ChainAction Block := do
  let old ← blockOf name
  rebuild lib name (coinbase :: old.transactions.drop 1) none

def moveTip (name : String) : ChainAction Unit := do
  let block ← blockOf name
  Action.update fun chain => { chain with tip := some block }

end Calls

end BitcoinNodeTests.FeatureBlock
