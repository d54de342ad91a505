import BitcoinNodeTests.Foundation.Keyed
import BitcoinNodeTests.MiniWallet.Accepted
import BitcoinNodeTests.MiniWallet.Refused

/-!
# A wallet's books

What a run of calls that return mines, spends and pays away, kept beside the session: the
blocks, each transaction sent with the coins it spends, and what `send_to` paid to scripts
of others.  A call may be made where the node takes every transaction once, those of the
blocks included.
-/

set_option autoImplicit false

namespace BitcoinNodeTests

open Foundation

structure Spending where
  coins : List Utxo
  tx : Tx

structure Ledger where
  blocks : List Mined
  sent : List Spending
  paid : List Int

namespace Ledger

variable (lib : Btclib)

def empty : Ledger := ⟨[], [], []⟩

def ids (ledger : Ledger) : List (List Octet) :=
  (ledger.blocks.filterMap (Session.coinOf lib)).map (fun coin => coin.outpoint.txId) ++
    ledger.sent.map fun spending => lib.txId spending.tx

def feeOf (spending : Spending) : Int := totalOf spending.coins - spending.tx.total

def balance (ledger : Ledger) : Int :=
  (ledger.blocks.map fun mined => lib.subsidy mined.height REGTEST_SUBSIDY_HALVING_INTERVAL).sum -
    (ledger.sent.map feeOf).sum - ledger.paid.sum

def mine (mined : List Mined) (ledger : Ledger) : Ledger :=
  { ledger with blocks := ledger.blocks ++ mined }

def send (coins : List Utxo) (tx : Tx) (ledger : Ledger) : Ledger :=
  { ledger with sent := ledger.sent ++ [⟨coins, tx⟩] }

def sendChain (coin : Utxo) : List Tx → Ledger → Ledger
  | [], ledger => ledger
  | tx :: rest, ledger =>
      match (Wallet.newUtxos lib tx).head? with
      | none => ledger.send [coin] tx
      | some next => (ledger.send [coin] tx).sendChain next rest

def pay (scriptPubKey : List Octet) (value : Int) (ledger : Ledger) : Ledger :=
  if scriptPubKey = lib.anyoneCanSpend then ledger
  else { ledger with paid := ledger.paid ++ [value] }

@[simp] theorem pay_blocks (scriptPubKey : List Octet) (value : Int) (ledger : Ledger) :
    (ledger.pay lib scriptPubKey value).blocks = ledger.blocks := by
  unfold pay
  split
  · rfl
  · rfl

@[simp] theorem pay_sent (scriptPubKey : List Octet) (value : Int) (ledger : Ledger) :
    (ledger.pay lib scriptPubKey value).sent = ledger.sent := by
  unfold pay
  split
  · rfl
  · rfl

theorem pay_paid_sum (scriptPubKey : List Octet) (value : Int) (ledger : Ledger) :
    (ledger.pay lib scriptPubKey value).paid.sum =
      ledger.paid.sum + if scriptPubKey = lib.anyoneCanSpend then 0 else value := by
  unfold pay
  split
  · rw [Int.add_zero]
  · rw [List.sum_append, List.sum_singleton]

/-- The node has not taken the transactions of these ids, each of which is another. -/
def TakesOnce (ids : List (List Octet)) (ledger : Ledger) : Prop :=
  ids.Nodup ∧ ∀ id ∈ ids, id ∉ ledger.ids lib

end Ledger

/-- The coin a call spends: the one it names, which is cached, or the one picked for it. -/
def Wallet.Spends (wallet : Wallet) (confirmedOnly : Bool) (coin : Utxo) : Option Utxo → Prop
  | some named => named = coin ∧ coin ∈ wallet.utxos
  | none => wallet.picked confirmedOnly = some coin

def Wallet.SpendsAll (wallet : Wallet) (confirmedOnly : Bool) (coins : List Utxo) :
    Option (List Utxo) → Prop
  | some named => named = coins ∧ coins.Nodup ∧ ∀ coin ∈ coins, coin ∈ wallet.utxos
  | none => ∃ coin, coins = [coin] ∧ wallet.picked confirmedOnly = some coin

namespace Session

variable {ω : Type}

/-- A session reached by calls that returned, from a construction, and its books; the world
may move between the calls. -/
inductive Books (lib : Btclib) (env : Environment ω) : Session ω → Ledger → Prop where
  | constructed {wallet : Wallet} {before world : ω}
      (built : construct env before = (.ok wallet, world)) :
      Books lib env ⟨wallet, world, [], []⟩ .empty
  | moved {session : Session ω} {ledger : Ledger} (world : ω) (books : Books lib env session ledger) :
      Books lib env { session with world := world } ledger
  | generated {session reached : Session ω} {ledger : Ledger} {count : Int} {confirm : List Tx}
      {hashes : List (List Octet)} (books : Books lib env session ledger)
      (sent : ∀ tx ∈ confirm, tx ∈ ledger.sent.map Spending.tx)
      (returned : generate lib env count confirm session = (.ok hashes, reached))
      (once : ledger.TakesOnce lib
        (((newlyAccepted session reached).filterMap (coinOf lib)).map fun coin =>
          coin.outpoint.txId)) :
      Books lib env reached (ledger.mine (newlyAccepted session reached))
  | sentTransfer {session reached : Session ω} {ledger : Ledger} {options : SelfTransfer}
      {coin : Utxo} {tx : Tx} (books : Books lib env session ledger)
      (spends : session.wallet.Spends options.confirmedOnly coin options.utxoToSpend)
      (returned : sendSelfTransfer lib env options session = (.ok tx, reached))
      (once : ledger.TakesOnce lib [lib.txId tx]) :
      Books lib env reached (ledger.send [coin] tx)
  | sentMulti {session reached : Session ω} {ledger : Ledger} {options : SelfTransferMulti}
      {coins : List Utxo} {tx : Tx} (books : Books lib env session ledger)
      (spends : session.wallet.SpendsAll options.confirmedOnly coins options.utxosToSpend)
      (returned : sendSelfTransferMulti lib env options session = (.ok tx, reached))
      (once : ledger.TakesOnce lib [lib.txId tx]) :
      Books lib env reached (ledger.send coins tx)
  | sentChain {session reached : Session ω} {ledger : Ledger} {chainLength : Int}
      {utxoToSpend : Option Utxo} {coin : Utxo} {chain : List Tx}
      (books : Books lib env session ledger)
      (spends : 0 < chainLength → session.wallet.Spends false coin utxoToSpend)
      (returned : sendSelfTransferChain lib env chainLength utxoToSpend session =
        (.ok chain, reached))
      (once : ledger.TakesOnce lib (chain.map lib.txId)) :
      Books lib env reached (ledger.sendChain lib coin chain)
  | sentTo {session reached : Session ω} {ledger : Ledger} {scriptPubKey : List Octet}
      {value : Int} {coin : Utxo} {tx : Tx} (books : Books lib env session ledger)
      (spends : session.wallet.Spends false coin none)
      (returned : sendTo lib env scriptPubKey value session = (.ok tx, reached))
      (once : ledger.TakesOnce lib [lib.txId tx]) :
      Books lib env reached ((ledger.send [coin] tx).pay lib scriptPubKey value)

end Session

end BitcoinNodeTests
