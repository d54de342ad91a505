import BitcoinNodeTests.Foundation.Octets

/-!
# Transactions and blocks

The values the wallet builds and caches, with the sizes a fee is priced at.  What
btclib computes of them comes in as `Btclib`: identifiers, encodings, the coinbase
of a height, the block around it and the search for its nonce, each `none` where
btclib raises.
-/

set_option autoImplicit false

namespace BitcoinNodeTests

structure OutPoint where
  txId : List Octet
  vout : Nat
  deriving DecidableEq, Repr

structure TxIn where
  prevOut : OutPoint
  scriptSig : List Octet
  sequence : Int
  scriptWitness : List (List Octet)
  deriving DecidableEq, Repr

structure TxOut where
  value : Int
  scriptPubKey : List Octet
  deriving DecidableEq, Repr

structure Tx where
  version : Int
  lockTime : Int
  vin : List TxIn
  vout : List TxOut
  deriving DecidableEq, Repr

structure Header where
  version : Int
  previousBlockHash : List Octet
  merkleRoot : List Octet
  time : Int
  bits : List Octet
  nonce : Nat
  deriving DecidableEq, Repr

structure Block where
  header : Header
  transactions : List Tx
  deriving DecidableEq, Repr

/-! ## Sizes -/

def varIntSize (value : Nat) : Nat :=
  if value < 0xfd then 1 else if value ≤ 0xffff then 3 else if value ≤ 0xffffffff then 5 else 9

def sizedOctets (octets : List Octet) : Nat := varIntSize octets.length + octets.length

def TxIn.size (txIn : TxIn) : Nat := 36 + sizedOctets txIn.scriptSig + 4

def TxIn.witnessSize (txIn : TxIn) : Nat :=
  varIntSize txIn.scriptWitness.length + (txIn.scriptWitness.map sizedOctets).sum

def TxOut.size (txOut : TxOut) : Nat := 8 + sizedOctets txOut.scriptPubKey

namespace Tx

def baseSize (tx : Tx) : Nat :=
  4 + varIntSize tx.vin.length + (tx.vin.map TxIn.size).sum +
    varIntSize tx.vout.length + (tx.vout.map TxOut.size).sum + 4

def isSegwit (tx : Tx) : Bool := tx.vin.any fun txIn => !txIn.scriptWitness.isEmpty

def witnessSize (tx : Tx) : Nat :=
  if tx.isSegwit then 2 + (tx.vin.map TxIn.witnessSize).sum else 0

def weight (tx : Tx) : Nat := 4 * tx.baseSize + tx.witnessSize

def vsize (tx : Tx) : Nat := (tx.weight + 3) / 4

def spends (tx : Tx) : List OutPoint := tx.vin.map TxIn.prevOut

end Tx

/-! ## btclib -/

/-- `buildBlock` takes the previous hash, the transactions, the time and the version;
`mine` gives `none` where no nonce within its bound solves the header. -/
structure Btclib where
  txId : Tx → List Octet
  serialize : Tx → Option (List Octet)
  parse : List Octet → Option Tx
  validTxIn : TxIn → Bool
  validTxOut : TxOut → Bool
  validTx : Tx → Bool
  /-- `_ANYONE_CAN_SPEND.script` and `_witness()` -/
  anyoneCanSpend : List Octet
  witness : List (List Octet)
  subsidy : Int → Int → Int
  buildCoinbase : Int → List Octet → Int → Option Tx
  buildBlock : List Octet → List Tx → Int → Int → Option Block
  /-- the coinbase of a block of these other transactions, committed to their witnesses -/
  commitWitnesses : Tx → List Tx → Tx
  /-- `btclib.block.mining.VERSION` -/
  miningVersion : Int
  mine : Header → Option Header
  blockHash : Header → List Octet
  serializeBlock : Block → Option (List Octet)

/-- What `build_block` and `mine` keep of what they are given, the second changing the
nonce alone. -/
structure BlockLaws (lib : Btclib) : Prop where
  build : ∀ {previous transactions time version candidate},
    lib.buildBlock previous transactions time version = some candidate →
      candidate.header.previousBlockHash = previous ∧ candidate.header.time = time
  transactions : ∀ {previous coinbase extra time version candidate},
    lib.buildBlock previous (coinbase :: extra) time version = some candidate →
      candidate.transactions = lib.commitWitnesses coinbase extra :: extra
  mine : ∀ {header solved}, lib.mine header = some solved →
    solved.previousBlockHash = header.previousBlockHash ∧ solved.time = header.time

end BitcoinNodeTests
