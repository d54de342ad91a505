import BitcoinNodeTests.MiniWallet.BlockTime

/-!
# A node that answers honestly

A chain of blocks and a mempool behind the RPC.  A transaction joins the mempool only where
each of its inputs names an output that no block and no mempool transaction spends, a block
the chain only on its tip and where its transactions, in order, spend outputs the chain has
unspent; the transactions of a block leave the mempool.  A node may refuse more than that,
and every answer says what is so.
-/

set_option autoImplicit false

namespace BitcoinNodeTests

open Foundation

/-- What a coinbase's input names in the place of an output. -/
def OutPoint.null : OutPoint := ⟨List.replicate 32 0, 0xffffffff⟩

def Tx.isCoinbase (tx : Tx) : Bool := tx.spends = [OutPoint.null]

/-- The blocks follow the genesis block, whose coinbase is no output, the oldest first. -/
structure ChainNode where
  genesis : Block
  blocks : List Block
  mempool : List Tx

/-! ## Outputs -/

section Outputs

variable (lib : Btclib)

def outputAmong (txs : List Tx) (outpoint : OutPoint) : Option TxOut := do
  let tx ← txs.find? fun tx => lib.txId tx = outpoint.txId
  tx.vout[outpoint.vout]?

/-- A transaction other than a coinbase spends the outpoint. -/
def spentAmong (txs : List Tx) (outpoint : OutPoint) : Bool :=
  txs.any fun tx => !tx.isCoinbase && outpoint ∈ tx.spends

/-- A transaction with inputs, no coinbase, each naming an output of `txs` unspent there. -/
def spendable (txs : List Tx) (tx : Tx) : Bool :=
  !tx.isCoinbase && !tx.vin.isEmpty && tx.spends.all fun outpoint =>
    (outputAmong lib txs outpoint).isSome && !spentAmong txs outpoint

def connectable (txs : List Tx) : List Tx → Bool
  | [] => true
  | tx :: rest => spendable lib txs tx && connectable (txs ++ [tx]) rest

end Outputs

namespace ChainNode

variable (lib : Btclib)

def confirmed (node : ChainNode) : List Tx := node.blocks.flatMap Block.transactions

def transactions (node : ChainNode) : List Tx := node.confirmed ++ node.mempool

def tip (node : ChainNode) : List Octet :=
  lib.blockHash ((node.blocks.getLast?).getD node.genesis).header

def height (node : ChainNode) : Int := node.blocks.length

def medianTime (node : ChainNode) : Int :=
  (medianTimePast ((node.genesis :: node.blocks).map fun block => block.header.time)).getD 0

/-- On the tip, a coinbase whose id the chain does not have, and transactions that spend
what the chain has unspent: the coinbase of the block itself matures later. -/
def connects (block : Block) (node : ChainNode) : Bool :=
  match block.transactions with
  | [] => false
  | coinbase :: rest =>
      decide (block.header.previousBlockHash = node.tip lib) && coinbase.isCoinbase &&
        decide (lib.txId coinbase ∉ node.confirmed.map lib.txId) &&
        connectable lib node.confirmed rest

def relay (tx : Tx) (node : ChainNode) : ChainNode :=
  { node with mempool := node.mempool ++ [tx] }

def connect (block : Block) (node : ChainNode) : ChainNode :=
  { node with
    blocks := node.blocks ++ [block]
    mempool := node.mempool.filter fun tx => lib.txId tx ∉ block.transactions.map lib.txId }

def confirmations (txId : List Octet) (node : ChainNode) : Int :=
  match node.blocks.findIdx? fun block => txId ∈ block.transactions.map lib.txId with
  | some index => node.blocks.length - index
  | none => 0

end ChainNode

/-! ## The RPC -/

/-- What is a node's own: how it reads and writes transactions and blocks, what it refuses
beyond the rules above and in which words, and the clock beside it. -/
structure NodeRules where
  encodeTx : Tx → List Octet
  decodeTx : List Octet → Option Tx
  decodeBlock : List Octet → Option Block
  relays : ChainNode → Tx → Bool
  rejection : ChainNode → Tx → RpcFailure
  connects : ChainNode → Block → Bool
  reason : ChainNode → Block → String
  clock : Nat → Int

structure ChainWorld where
  node : ChainNode
  ticks : Nat

namespace ChainNode

variable (lib : Btclib) (rules : NodeRules)

/-- `gettxout`, with the fields a wallet reads of a coin. -/
def getTxOut (outpoint : OutPoint) (includeMempool : Bool) (node : ChainNode) : Json :=
  let txs := if includeMempool then node.transactions else node.confirmed
  match outputAmong lib txs outpoint with
  | none => .null
  | some _ =>
      if spentAmong txs outpoint then .null
      else .object [("bestblock", .str (hex (node.tip lib))),
        ("confirmations", .int (node.confirmations lib outpoint.txId))]

/-- `getrawtransaction` without an index: a transaction of the mempool alone. -/
def getRawTransaction (txid : String) (node : ChainNode) : Except RpcFailure Json :=
  match node.mempool.find? fun tx => hex (lib.txId tx) = txid with
  | some tx => .ok (.str (hex (rules.encodeTx tx)))
  | none => .error (.rpcError (-5) "No such mempool transaction")

def sendRawTransaction (text : String) (node : ChainNode) : Except RpcFailure Json × ChainNode :=
  match (fromHex text).bind rules.decodeTx with
  | none => (.error (.rpcError (-22) "TX decode failed"), node)
  | some tx =>
      if spendable lib node.transactions tx && rules.relays node tx then
        (.ok (.str (hex (lib.txId tx))), node.relay tx)
      else (.error (rules.rejection node tx), node)

def submitBlock (text : String) (node : ChainNode) : Except RpcFailure Json × ChainNode :=
  match (fromHex text).bind rules.decodeBlock with
  | none => (.error (.rpcError (-22) "Block decode failed"), node)
  | some block =>
      if node.connects lib block && rules.connects node block then
        (.ok .null, node.connect lib block)
      else (.ok (.str (rules.reason node block)), node)

def answer (method : String) (params : List Json) (node : ChainNode) :
    Except RpcFailure Json × ChainNode :=
  match method, params with
  | "getbestblockhash", _ => (.ok (.str (hex (node.tip lib))), node)
  | "getblockcount", _ => (.ok (.int node.height), node)
  | "getblockchaininfo", _ =>
      (.ok (.object [("blocks", .int node.height), ("bestblockhash", .str (hex (node.tip lib))),
        ("mediantime", .int node.medianTime)]), node)
  | "gettxout", [.str txid, .int vout, .bool includeMempool] =>
      match fromHex txid with
      | none => (.error (.rpcError (-8) "txid must be hexadecimal string"), node)
      | some octets => (.ok (node.getTxOut lib ⟨octets, vout.toNat⟩ includeMempool), node)
  | "getrawmempool", _ =>
      (.ok (.array (node.mempool.map fun tx => .str (hex (lib.txId tx)))), node)
  | "getrawtransaction", .str txid :: _ => (node.getRawTransaction lib rules txid, node)
  | "sendrawtransaction", .str text :: _ => node.sendRawTransaction lib rules text
  | "submitblock", .str text :: _ => node.submitBlock lib rules text
  | _, _ => (.error (.rpcError (-32601) "Method not found"), node)

end ChainNode

def honest (lib : Btclib) (rules : NodeRules) : Environment ChainWorld where
  call method params world :=
    let (outcome, node) := world.node.answer lib rules method params
    (outcome, { world with node := node })
  clock world := (rules.clock world.ticks, { world with ticks := world.ticks + 1 })

/-- The worlds reached from a genesis block by calls of the node by anyone. -/
inductive Reached (lib : Btclib) (rules : NodeRules) : ChainWorld → Prop where
  | genesis (block : Block) (ticks : Nat) : Reached lib rules ⟨⟨block, [], []⟩, ticks⟩
  | called {world : ChainWorld} (method : String) (params : List Json)
      (reached : Reached lib rules world) :
      Reached lib rules ((honest lib rules).call method params world).2
  | ticked {world : ChainWorld} (reached : Reached lib rules world) :
      Reached lib rules ((honest lib rules).clock world).2

/-- What is relied on of btclib and of the node's reading: an id names what a transaction
spends and pays; a coinbase spends the null outpoint, and pays the subsidy to the script and
nothing else to the wallet's; the node reads what btclib writes, and btclib what the node
does. -/
structure ChainLaws (lib : Btclib) (rules : NodeRules) : Prop where
  blocks : BlockLaws lib
  ids : ∀ {tx tx' : Tx}, lib.txId tx = lib.txId tx' → tx.spends = tx'.spends ∧ tx.vout = tx'.vout
  coinbase : ∀ {height scriptPubKey interval coinbase},
    lib.buildCoinbase height scriptPubKey interval = some coinbase →
      ∀ extra, (lib.commitWitnesses coinbase extra).isCoinbase
  pays : ∀ {height scriptPubKey interval coinbase},
    lib.buildCoinbase height scriptPubKey interval = some coinbase →
      ∀ extra, ∃ others, (lib.commitWitnesses coinbase extra).vout =
          ⟨lib.subsidy height interval, scriptPubKey⟩ :: others ∧
        ∀ txOut ∈ others, txOut.scriptPubKey ≠ lib.anyoneCanSpend
  readsTx : ∀ {tx octets}, lib.serialize tx = some octets → rules.decodeTx octets = some tx
  readsBlock : ∀ {block octets},
    lib.serializeBlock block = some octets → rules.decodeBlock octets = some block
  parses : ∀ {tx octets}, rules.decodeTx octets = some tx → lib.parse (rules.encodeTx tx) = some tx

end BitcoinNodeTests
