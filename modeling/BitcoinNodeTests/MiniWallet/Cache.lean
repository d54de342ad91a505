import Mathlib.Data.Finset.Insert
import Mathlib.Data.List.Sort
import BitcoinNodeTests.Foundation.Action
import BitcoinNodeTests.MiniWallet.Transaction

/-!
# The coin cache

The wallet's own state and what it does to it without asking the node: `get_utxo`
and `get_utxos`, the coins a transaction pays the wallet, the scan of one
transaction and of a list confirmed together.
-/

set_option autoImplicit false

namespace BitcoinNodeTests

open Foundation

structure Utxo where
  outpoint : OutPoint
  value : Int
  height : Int
  coinbase : Bool
  deriving DecidableEq, Repr

def Utxo.confirmed (utxo : Utxo) : Bool := 0 < utxo.height

structure Wallet where
  utxos : List Utxo
  scanned : Finset (List Octet)
  tip : List Octet
  height : Int
  lastTime : Int

def COINBASE_MATURITY : Int := 100

namespace Wallet

def outpoints (wallet : Wallet) : List OutPoint := wallet.utxos.map Utxo.outpoint

def forget (spent : List OutPoint) (wallet : Wallet) : Wallet :=
  { wallet with utxos := wallet.utxos.filter fun utxo => utxo.outpoint ∉ spent }

def getBalance (wallet : Wallet) : Int := (wallet.utxos.map Utxo.value).sum

def isMature (wallet : Wallet) (utxo : Utxo) : Bool :=
  !utxo.coinbase || COINBASE_MATURITY ≤ wallet.height + 1 - utxo.height

/-! ## Choosing coins -/

/-- `sort(key=lambda utxo: (utxo.value, -utxo.height))`: a stable sort. -/
def sortOrder (first second : Utxo) : Prop :=
  first.value < second.value ∨ first.value = second.value ∧ second.height ≤ first.height

instance : DecidableRel sortOrder := fun first second =>
  inferInstanceAs (Decidable (first.value < second.value ∨
    first.value = second.value ∧ second.height ≤ first.height))

def sorted (wallet : Wallet) : Wallet :=
  { wallet with utxos := wallet.utxos.insertionSort sortOrder }

def candidates (txid : Option String) (vout : Option Int) (confirmedOnly : Bool)
    (wallet : Wallet) : List Utxo :=
  let named := match txid with
    | some txid => wallet.utxos.filter fun utxo => hex utxo.outpoint.txId = txid
    | none => wallet.utxos.reverse.filter wallet.isMature
  let indexed := match vout with
    | some vout => named.filter fun utxo => (utxo.outpoint.vout : Int) = vout
    | none => named
  if confirmedOnly then indexed.filter Utxo.confirmed else indexed

/-- The text of `get_utxo`'s `LookupError`; a txid is quoted as one free of quotes,
backslashes and control characters is. -/
def noCandidate (txid : Option String) (vout : Option Int) (confirmedOnly : Bool) : String :=
  (match txid with
    | some txid => s!"no coin of this wallet was paid by txid '{txid}'"
    | none => "no coin of this wallet has matured yet") ++
  (match vout with
    | some vout => s!", vout {vout}"
    | none => "") ++
  if confirmedOnly then ", confirmed" else ""

def getUtxos (includeImmatureCoinbase markAsSpent confirmedOnly : Bool) (wallet : Wallet) :
    List Utxo × Wallet :=
  let kept := wallet.utxos.filter fun utxo =>
    (includeImmatureCoinbase || wallet.isMature utxo) && (!confirmedOnly || utxo.confirmed)
  (kept, if markAsSpent then { wallet with utxos := [] } else wallet)

/-! ## Scanning transactions -/

section Scanning

variable (lib : Btclib)

def newUtxos (tx : Tx) : List Utxo :=
  tx.vout.zipIdx.filterMap fun (txOut, vout) =>
    if txOut.scriptPubKey = lib.anyoneCanSpend then
      some ⟨⟨lib.txId tx, vout⟩, txOut.value, 0, false⟩
    else none

theorem mem_newUtxos {lib : Btclib} {tx : Tx} {utxo : Utxo} :
    utxo ∈ newUtxos lib tx ↔ utxo.outpoint.txId = lib.txId tx ∧
      tx.vout[utxo.outpoint.vout]? = some ⟨utxo.value, lib.anyoneCanSpend⟩ ∧
      utxo.height = 0 ∧ utxo.coinbase = false := by
  unfold newUtxos
  rw [List.mem_filterMap]
  constructor
  · rintro ⟨⟨txOut, vout⟩, among, found⟩
    obtain ⟨pays, rfl⟩ := Option.ite_some_none_eq_some.mp found
    have output := List.mem_zipIdx_iff_getElem?.mp among
    rw [← pays]
    exact ⟨rfl, output, rfl, rfl⟩
  · rintro ⟨named, output, height, coinbase⟩
    refine ⟨(⟨utxo.value, lib.anyoneCanSpend⟩, utxo.outpoint.vout),
      List.mem_zipIdx_iff_getElem?.mpr output, ?_⟩
    dsimp only
    rw [if_pos rfl, ← named, ← height, ← coinbase]

theorem newUtxos_txId {lib : Btclib} {tx : Tx} {utxo : Utxo} (paid : utxo ∈ newUtxos lib tx) :
    utxo.outpoint.txId = lib.txId tx :=
  (mem_newUtxos.mp paid).1

def scanTx (tx : Tx) (wallet : Wallet) : Wallet :=
  let forgotten := wallet.forget tx.spends
  { forgotten with
    utxos := forgotten.utxos ++ newUtxos lib tx
    scanned := insert (lib.txId tx) forgotten.scanned }

/-- `generate`'s loop over the transactions of an accepted block: the coins it adds,
and the cache it leaves. -/
def scanConfirmed : List Tx → Wallet → List OutPoint × Wallet
  | [], wallet => ([], wallet)
  | tx :: rest, wallet =>
      if lib.txId tx ∈ wallet.scanned then scanConfirmed rest (wallet.forget tx.spends)
      else
        let (added, final) := scanConfirmed rest (scanTx lib tx wallet)
        ((newUtxos lib tx).map Utxo.outpoint ++ added, final)

def confirmAt (height : Int) (confirmed : List Tx) (wallet : Wallet) : Wallet :=
  { wallet with
    utxos := wallet.utxos.map fun utxo =>
      if utxo.outpoint.txId ∈ confirmed.map lib.txId then { utxo with height := height }
      else utxo }

end Scanning

end Wallet

end BitcoinNodeTests
