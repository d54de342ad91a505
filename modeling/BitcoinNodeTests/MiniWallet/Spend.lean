import BitcoinNodeTests.MiniWallet.Generate

/-!
# Spending coins

`get_utxo`, the `create_*` methods, which build a transaction and leave the cache to
the coin they take, and the `send_*` methods, which broadcast it and scan it once the
node has answered its id.  What a transaction is made of does not depend on the
session, so the makers are pure and raise by `Except`.
-/

set_option autoImplicit false

namespace BitcoinNodeTests

open Foundation

def FEE : Int := 1000
def DEFAULT_FEE_RATE : Int := 300000

/-- `sequence`: one for every input, or one per input. -/
inductive Sequence where
  | same (value : Int)
  | each (values : List Int)
  deriving DecidableEq, Repr

def Sequence.forCoins (count : Nat) : Sequence → List Int
  | .same value => List.replicate count value
  | .each values => values

section Makers

variable (lib : Btclib)

def selfTransferTx (utxos : List Utxo) (amountPerOutput numOutputs version locktime : Int)
    (sequence : Sequence) : Except WalletRaised Tx :=
  let sequences := sequence.forCoins utxos.length
  if sequences.length ≠ utxos.length then
    .error (.valueError s!"{sequences.length} sequence(s) for {utxos.length} coin(s)")
  else
    let vin := List.zipWith
      (fun utxo utxoSequence => (⟨utxo.outpoint, [], utxoSequence, lib.witness⟩ : TxIn))
      utxos sequences
    let vout := List.replicate numOutputs.toNat (⟨amountPerOutput, lib.anyoneCanSpend⟩ : TxOut)
    let tx : Tx := ⟨version, locktime, vin, vout⟩
    if vin.all lib.validTxIn && vout.all lib.validTxOut && lib.validTx tx then .ok tx
    else .error .btclibValueError

/-- A `TxOut`, which btclib checks as it is built. -/
def checkedTxOut (value : Int) (scriptPubKey : List Octet) : Except WalletRaised TxOut :=
  if lib.validTxOut ⟨value, scriptPubKey⟩ then .ok ⟨value, scriptPubKey⟩
  else .error .btclibValueError

def OP_RETURN : Octet := 0x6a
def OP_1 : Octet := 0x51

def padToVsize (tx : Tx) (targetVsize : Int) : Except WalletRaised Tx := do
  let placeholder ← checkedTxOut lib 0 [OP_RETURN]
  let reached := { tx with vout := tx.vout ++ [placeholder] }.vsize
  let deficit := targetVsize - reached
  if deficit < 0 then
    .error (.valueError s!"target_vsize {targetVsize} is smaller than {reached}")
  else
    -- the growth of the compact size beyond its one octet is owed no more
    let owed := deficit.toNat - (varIntSize deficit.toNat - 1)
    let padding ← checkedTxOut lib 0 (OP_RETURN :: List.replicate owed OP_1)
    .ok { tx with vout := tx.vout ++ [padding] }

/-- `if target_vsize: _pad_to_vsize(tx, target_vsize)` -/
def padWhereAsked (tx : Tx) (targetVsize : Int) : Except WalletRaised Tx :=
  if targetVsize ≠ 0 then padToVsize lib tx targetVsize else .ok tx

structure SelfTransfer where
  feeRate : Int
  fee : Int
  utxoToSpend : Option Utxo
  targetVsize : Int
  confirmedOnly : Bool
  version : Int
  locktime : Int
  sequence : Sequence

def SelfTransfer.default : SelfTransfer where
  feeRate := DEFAULT_FEE_RATE
  fee := 0
  utxoToSpend := none
  targetVsize := 0
  confirmedOnly := false
  version := 2
  locktime := 0
  sequence := .same 0

/-- `target_vsize or tx.vsize` -/
def SelfTransfer.pricedSize (options : SelfTransfer) (tx : Tx) : Int :=
  if options.targetVsize ≠ 0 then options.targetVsize else tx.vsize

/-- The fee of `create_self_transfer`: rounded up where it is a rate's. -/
def SelfTransfer.feeOf (options : SelfTransfer) (tx : Tx) : Int :=
  if options.fee ≠ 0 then options.fee
  else -Int.fdiv (-options.feeRate * options.pricedSize tx) 1000

def selfTransferOf (options : SelfTransfer) (utxo : Utxo) : Except WalletRaised Tx := do
  let tx ← selfTransferTx lib [utxo] 0 1 options.version options.locktime options.sequence
  let fee := options.feeOf tx
  if utxo.value ≤ fee then
    .error (.valueError s!"coin of {utxo.value} sat cannot cover a {fee}-sat fee")
  else
    let paid ← checkedTxOut lib (utxo.value - fee) lib.anyoneCanSpend
    padWhereAsked lib { tx with vout := tx.vout.set 0 paid } options.targetVsize

structure SelfTransferMulti where
  utxosToSpend : Option (List Utxo)
  numOutputs : Int
  version : Int
  locktime : Int
  sequence : Sequence
  feePerOutput : Int
  targetVsize : Int
  confirmedOnly : Bool

def SelfTransferMulti.default : SelfTransferMulti where
  utxosToSpend := none
  numOutputs := 1
  version := 2
  locktime := 0
  sequence := .same 0
  feePerOutput := FEE
  targetVsize := 0
  confirmedOnly := false

def selfTransferMultiOf (options : SelfTransferMulti) (utxos : List Utxo) :
    Except WalletRaised Tx :=
  let inputsTotal := (utxos.map Utxo.value).sum
  if options.numOutputs = 0 then .error .zeroDivisionError
  else
    let amountPerOutput :=
      Int.fdiv (inputsTotal - options.feePerOutput * options.numOutputs) options.numOutputs
    if amountPerOutput ≤ 0 then
      .error (.valueError (s!"{inputsTotal} sat across {utxos.length} coin(s), less " ++
        s!"{options.feePerOutput} sat fee per output, does not cover " ++
        s!"{options.numOutputs} output(s)"))
    else do
      let tx ← selfTransferTx lib utxos amountPerOutput options.numOutputs options.version
        options.locktime options.sequence
      padWhereAsked lib tx options.targetVsize

def sendToOf (scriptPubKey : List Octet) (value : Int) (utxo : Utxo) : Except WalletRaised Tx :=
  if utxo.value < value + FEE then
    .error (.valueError (s!"coin of {utxo.value} sat cannot cover {value} sat plus " ++
      s!"this class's own {FEE}-sat fee"))
  else do
    let tx ← selfTransferTx lib [utxo] (utxo.value - value - FEE) 1 2 0 (.same 0)
    let paid ← checkedTxOut lib value scriptPubKey
    .ok { tx with vout := tx.vout ++ [paid] }

end Makers

namespace Session

variable {ω : Type} (lib : Btclib) (env : Environment ω)

def orThrow {σ α : Type} (result : Except WalletRaised α) : Action σ WalletRaised α :=
  fun state => (result, state)

def getUtxo (txid : Option String) (vout : Option Int) (markAsSpent confirmedOnly : Bool) :
    Action (Session ω) WalletRaised Utxo := do
  onWallet Wallet.sorted
  let candidates ← Action.read fun session => session.wallet.candidates txid vout confirmedOnly
  let utxo ← orRaise (.lookupError (Wallet.noCandidate txid vout confirmedOnly)) candidates.head?
  onWallet fun wallet =>
    if markAsSpent then { wallet with utxos := wallet.utxos.erase utxo } else wallet
  pure utxo

def getUtxos (includeImmatureCoinbase markAsSpent confirmedOnly : Bool) :
    Action (Session ω) WalletRaised (List Utxo) := do
  let (kept, wallet) ← Action.read fun session =>
    session.wallet.getUtxos includeImmatureCoinbase markAsSpent confirmedOnly
  onWallet fun _ => wallet
  pure kept

/-- The coin named, or `get_utxo`'s own. -/
def pickCoin (confirmedOnly : Bool) : Option Utxo → Action (Session ω) WalletRaised Utxo
  | some utxo => pure utxo
  | none => getUtxo none none true confirmedOnly

def createSelfTransfer (options : SelfTransfer) : Action (Session ω) WalletRaised Tx :=
  if options.feeRate < 0 ∨ options.fee < 0 then
    Action.raise (.valueError
      s!"fee_rate {options.feeRate} and fee {options.fee} must not be negative")
  else do
    let utxo ← pickCoin options.confirmedOnly options.utxoToSpend
    orThrow (selfTransferOf lib options utxo)

def pickCoins (confirmedOnly : Bool) :
    Option (List Utxo) → Action (Session ω) WalletRaised (List Utxo)
  | some utxos => pure utxos
  | none => do
      let utxo ← getUtxo none none true confirmedOnly
      pure [utxo]

def createSelfTransferMulti (options : SelfTransferMulti) : Action (Session ω) WalletRaised Tx := do
  let utxos ← pickCoins options.confirmedOnly options.utxosToSpend
  orThrow (selfTransferMultiOf lib options utxos)

def createChainFrom : Nat → Option Utxo → Action (Session ω) WalletRaised (List Tx)
  | 0, _ => pure []
  | count + 1, utxo => do
      let tx ← createSelfTransfer lib { SelfTransfer.default with utxoToSpend := utxo }
      let next ← orRaise .indexError (Wallet.newUtxos lib tx).head?
      let rest ← createChainFrom count (some next)
      pure (tx :: rest)

def createSelfTransferChain (chainLength : Int) (utxoToSpend : Option Utxo) :
    Action (Session ω) WalletRaised (List Tx) :=
  createChainFrom lib chainLength.toNat utxoToSpend

/-- What the node answers to `_send` is the transaction's id, or `_send` raises. -/
def expectId {σ : Type} (tx : Tx) (answer : Json) : Action σ WalletRaised Unit :=
  if answer.asStr = some (hex (lib.txId tx)) then pure ()
  else Action.raise
    (.answered "sendrawtransaction answered " answer s!", not '{hex (lib.txId tx)}'")

def send (tx : Tx) : Action (Session ω) WalletRaised Tx := do
  let octets ← orRaise .btclibValueError (lib.serialize tx)
  let answer ← onWorld (rpcCall env "sendrawtransaction" [.str (hex octets), .int 0])
  expectId lib tx answer
  onWallet (Wallet.scanTx lib tx)
  pure tx

def sendSelfTransfer (options : SelfTransfer) : Action (Session ω) WalletRaised Tx := do
  let tx ← createSelfTransfer lib options
  send lib env tx

def sendSelfTransferMulti (options : SelfTransferMulti) : Action (Session ω) WalletRaised Tx := do
  let tx ← createSelfTransferMulti lib options
  send lib env tx

def sendEach : List Tx → Action (Session ω) WalletRaised Unit
  | [] => pure ()
  | tx :: rest => do
      let _ ← send lib env tx
      sendEach rest

def sendSelfTransferChain (chainLength : Int) (utxoToSpend : Option Utxo) :
    Action (Session ω) WalletRaised (List Tx) := do
  let chain ← createSelfTransferChain lib chainLength utxoToSpend
  sendEach lib env chain
  pure chain

def sendTo (scriptPubKey : List Octet) (value : Int) : Action (Session ω) WalletRaised Tx := do
  let utxo ← getUtxo none none true false
  let tx ← orThrow (sendToOf lib scriptPubKey value utxo)
  send lib env tx

end Session

end BitcoinNodeTests
