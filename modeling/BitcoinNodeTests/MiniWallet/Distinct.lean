import Mathlib.Algebra.BigOperators.Group.Finset.Basic
import BitcoinNodeTests.MiniWallet.Calls
import BitcoinNodeTests.MiniWallet.PlainLib

/-!
# Outpoints cached twice

Three steps put coins in the cache: the scan of a transaction sent, the scan of one
confirmed, which alone asks whether it was scanned before, and the coinbase appended.
None of them looks at the coins already cached.  Where each adds only coins that are
not, the outpoints stay distinct over whole runs.
-/

set_option autoImplicit false

namespace BitcoinNodeTests

open Foundation

namespace Wallet

variable (lib : Btclib)

def Fresh (tx : Tx) (wallet : Wallet) : Prop :=
  ∀ utxo ∈ newUtxos lib tx, utxo.outpoint ∈ wallet.outpoints → utxo.outpoint ∈ tx.spends

instance (tx : Tx) (wallet : Wallet) : Decidable (wallet.Fresh lib tx) :=
  inferInstanceAs (Decidable (∀ utxo ∈ newUtxos lib tx, _))

def FreshScan : List Tx → Wallet → Prop
  | [], _ => True
  | tx :: rest, wallet =>
      if lib.txId tx ∈ wallet.scanned then FreshScan rest (wallet.forget tx.spends)
      else wallet.Fresh lib tx ∧ FreshScan rest (wallet.scanTx lib tx)

/-- The outpoint of the coinbase of a block at `height` that carries `extra`. -/
def coinbaseOutpoint (height : Int) (extra : List Tx) : Option OutPoint :=
  (lib.buildCoinbase height lib.anyoneCanSpend REGTEST_SUBSIDY_HALVING_INTERVAL).map fun built =>
    ⟨lib.txId (lib.commitWitnesses built extra), 0⟩

variable {lib}

theorem forget_outpoints (spent : List OutPoint) (wallet : Wallet) :
    (wallet.forget spent).outpoints = wallet.outpoints.filter (· ∉ spent) := by
  simp only [outpoints, forget, List.filter_map]
  rfl

theorem newUtxos_nodup (lib : Btclib) (tx : Tx) :
    ((newUtxos lib tx).map Utxo.outpoint).Nodup := by
  have indices : (tx.vout.zipIdx.map Prod.snd).Nodup := by
    rw [List.zipIdx_map_snd]
    exact List.nodup_range'
  rw [List.Nodup, List.pairwise_map] at indices
  rw [List.Nodup, List.pairwise_map, newUtxos, List.pairwise_filterMap]
  apply indices.imp
  intro first second differ utxo paid utxo' paid' same
  obtain ⟨-, rfl⟩ := Option.ite_some_none_eq_some.mp paid
  obtain ⟨-, rfl⟩ := Option.ite_some_none_eq_some.mp paid'
  exact differ (OutPoint.mk.inj same).2

theorem scanTx_nodup {tx : Tx} {wallet : Wallet} (distinct : wallet.outpoints.Nodup)
    (fresh : wallet.Fresh lib tx) : (wallet.scanTx lib tx).outpoints.Nodup := by
  have split : (wallet.scanTx lib tx).outpoints =
      wallet.outpoints.filter (· ∉ tx.spends) ++ (newUtxos lib tx).map Utxo.outpoint := by
    rw [← forget_outpoints]
    exact List.map_append
  rw [split, List.nodup_append']
  refine ⟨distinct.filter _, newUtxos_nodup lib tx, ?_⟩
  intro outpoint kept paid
  obtain ⟨utxo, member, rfl⟩ := List.mem_map.mp paid
  obtain ⟨cached, unspent⟩ := List.mem_filter.mp kept
  have spent := fresh utxo member cached
  simp [spent] at unspent

theorem scanConfirmed_nodup (confirm : List Tx) :
    ∀ {wallet : Wallet}, wallet.outpoints.Nodup → wallet.FreshScan lib confirm →
      (wallet.scanConfirmed lib confirm).2.outpoints.Nodup := by
  induction confirm with
  | nil => exact fun distinct _ => distinct
  | cons tx rest ih =>
      intro wallet distinct fresh
      rw [FreshScan] at fresh
      rw [scanConfirmed]
      by_cases scanned : lib.txId tx ∈ wallet.scanned
      · rw [if_pos scanned] at fresh ⊢
        apply ih _ fresh
        rw [forget_outpoints]
        exact distinct.filter _
      · rw [if_neg scanned] at fresh ⊢
        exact ih (scanTx_nodup distinct fresh.1) fresh.2

theorem confirmAt_outpoints (height : Int) (confirmed : List Tx) (wallet : Wallet) :
    (wallet.confirmAt lib height confirmed).outpoints = wallet.outpoints := by
  simp only [outpoints, confirmAt, List.map_map]
  apply List.map_congr_left
  intro utxo _
  simp only [Function.comp]
  split <;> rfl

end Wallet

namespace Session

variable {ω : Type} {lib : Btclib} {env : Environment ω}

open Wallet

theorem MempoolRead.outpoints {extra : List Tx} {session : Session ω} {world later : ω}
    {wallet : Wallet} (read : MempoolRead lib env extra session world wallet later) :
    wallet.outpoints.Sublist (session.wallet.scanConfirmed lib extra).2.outpoints := by
  cases read with
  | unneeded nothing =>
      rw [afterScan, confirmAt_outpoints]
      exact List.Sublist.refl _
  | read added answered =>
      rw [forget_outpoints, afterScan, confirmAt_outpoints]
      exact List.filter_sublist

/-- Of each block the node accepts in its turn, the transactions scanned are fresh, and the
coinbase is not among the coins that are cached when it is appended. -/
def FreshBlocks (lib : Btclib) (env : Environment ω) : Nat → List Tx → Session ω → Prop
  | 0, _, _ => True
  | count + 1, extra, session => ∀ mined world,
      Submitted lib env extra session mined (.ok .null) world →
        session.wallet.FreshScan lib extra ∧
          ∀ wallet later, MempoolRead lib env extra session world wallet later →
            (∀ outpoint ∈ coinbaseOutpoint lib mined.height extra, outpoint ∉ wallet.outpoints) ∧
              ∀ coinbase ∈ mined.block.transactions.head?,
                FreshBlocks lib env count [] (session.withAccepted later mined
                  (recordBlock lib mined.height mined.block mined.time coinbase wallet))

theorem generateLoop_nodup (laws : BlockLaws lib) (count : Nat) :
    ∀ {extra : List Tx} {session : Session ω}, session.wallet.outpoints.Nodup →
      FreshBlocks lib env count extra session →
      (generateLoop lib env count extra session).2.wallet.outpoints.Nodup := by
  induction count with
  | zero => exact fun distinct _ => distinct
  | succ count ih =>
      intro extra session distinct fresh
      have turn := generateNext_turn lib env extra session
      rcases run : generateNext lib env extra session with ⟨result, middle⟩
      rw [run] at turn
      cases turn with
      | unmined mining =>
          rw [generateLoop_of_error run]
          exact distinct
      | unserialized mining refused =>
          rw [generateLoop_of_error run]
          exact distinct
      | refused submitted refusal =>
          rw [generateLoop_of_error run]
          exact distinct
      | unread submitted added failed =>
          rw [generateLoop_of_error run]
          simp only [withAccepted, afterScan, confirmAt_outpoints]
          exact scanConfirmed_nodup extra distinct (fresh _ _ submitted).1
      | headless submitted read empty =>
          rw [generateLoop_of_error run]
          have scannedDistinct := scanConfirmed_nodup extra distinct (fresh _ _ submitted).1
          exact scannedDistinct.sublist read.outpoints
      | @recorded mined world later wallet coinbase rest submitted read transactions =>
          obtain ⟨freshScan, freshLater⟩ := fresh _ _ submitted
          obtain ⟨notCached, laterFresh⟩ := freshLater _ _ read
          obtain ⟨_, next⟩ := submitted.mined
          obtain ⟨built, isBuilt, carried⟩ := next.coinbase laws
          have isCoinbase : coinbase = lib.commitWitnesses built extra :=
            (List.cons.inj (transactions.symm.trans carried)).1
          have isOutpoint : coinbaseOutpoint lib mined.height extra = some ⟨lib.txId coinbase, 0⟩ := by
            rw [coinbaseOutpoint, isBuilt, isCoinbase]
            rfl
          have split : (recordBlock lib mined.height mined.block mined.time coinbase
              wallet).outpoints = wallet.outpoints ++ [⟨lib.txId coinbase, 0⟩] :=
            List.map_append
          have scannedDistinct := scanConfirmed_nodup extra distinct freshScan
          have cachedDistinct : wallet.outpoints.Nodup := scannedDistinct.sublist read.outpoints
          have isHead : coinbase ∈ mined.block.transactions.head? := by
            rw [transactions]
            rfl
          rw [generateLoop_of_ok run]
          refine ih ?_ (laterFresh coinbase isHead)
          simp only [withAccepted, split]
          apply List.Nodup.append cachedDistinct (List.nodup_singleton _)
          intro outpoint member single
          rw [List.mem_singleton.mp single] at member
          exact notCached _ isOutpoint member

/-- Each transaction whose id the node answers, which is then scanned, is fresh. -/
def FreshSends (lib : Btclib) (env : Environment ω) : List Tx → Wallet → ω → Prop
  | [], _, _ => True
  | tx :: rest, wallet, world => ∀ middle, Accepts lib env [tx] world middle →
      wallet.Fresh lib tx ∧ FreshSends lib env rest (wallet.scanTx lib tx) middle

theorem sendEach_nodup (chain : List Tx) :
    ∀ {session : Session ω}, session.wallet.outpoints.Nodup →
      FreshSends lib env chain session.wallet session.world →
      (sendEach lib env chain session).2.wallet.outpoints.Nodup := by
  induction chain with
  | nil => exact fun distinct _ => distinct
  | cons tx rest ih =>
      intro session distinct fresh
      have sent := send_sent lib env tx session
      rw [sendEach, Action.bind_apply]
      rcases run : send lib env tx session with ⟨result, middle⟩
      rw [run] at sent
      cases sent with
      | unserialized none => exact distinct
      | refused serialized answered notId => exact distinct
      | scanned serialized answered isId =>
          obtain ⟨freshTx, later⟩ := fresh _ (.cons serialized answered isId .nil)
          exact ih (scanTx_nodup distinct freshTx) later

theorem send_nodup {tx : Tx} {session : Session ω} (distinct : session.wallet.outpoints.Nodup)
    (fresh : FreshSends lib env [tx] session.wallet session.world) :
    (send lib env tx session).2.wallet.outpoints.Nodup := by
  have sent := sendEach_nodup [tx] distinct fresh
  rw [sendEach, Action.bind_apply] at sent
  rcases run : send lib env tx session with ⟨error | value, reached⟩
  · rw [run] at sent
    exact sent
  · rw [run] at sent
    exact sent

theorem Thinner.nodup {session reached : Session ω} (thinner : Thinner session reached)
    (distinct : session.wallet.outpoints.Nodup) : reached.wallet.outpoints.Nodup := by
  obtain ⟨kept, perm, sublist⟩ := thinner.coins
  have keptDistinct := distinct.sublist (sublist.map Utxo.outpoint)
  exact (perm.map Utxo.outpoint).nodup_iff.mp keptDistinct

/-- Transactions made without adding a coin, and then sent. -/
theorem madeThenSent_nodup {α β : Type} {make : Action (Session ω) WalletRaised α}
    {sendAll : α → Action (Session ω) WalletRaised β} {session : Session ω} (thins : Thins make)
    (distinct : session.wallet.outpoints.Nodup)
    (sends : ∀ made reached, make session = (.ok made, reached) →
      reached.wallet.outpoints.Nodup → (sendAll made reached).2.wallet.outpoints.Nodup) :
    ((make >>= sendAll) session).2.wallet.outpoints.Nodup := by
  have thinner := thins session
  rw [Action.bind_apply]
  rcases run : make session with ⟨error | made, reached⟩
  · rw [run] at thinner
    exact thinner.nodup distinct
  · rw [run] at thinner
    exact sends made reached run (thinner.nodup distinct)

/-! ## `resync` keeps the outpoints -/

theorem resyncCoin_outpoints {index : Nat} {utxo : Utxo} {rest : List OutPoint}
    {session : Session ω} (here : session.wallet.outpoints.drop index = utxo.outpoint :: rest) :
    (resyncCoin env index utxo session).2.wallet.outpoints = session.wallet.outpoints := by
  unfold resyncCoin
  by_cases coinbase : utxo.coinbase
  · rw [if_pos coinbase]
    rfl
  rw [if_neg coinbase, Action.read_bind, Action.bind_apply]
  rcases run : readHeight env session.wallet.height utxo session.world with ⟨error | height, world⟩
  · rw [onWorld, run]
  rw [onWorld, run]
  have atIndex : session.wallet.outpoints[index]? = some utxo.outpoint := by
    rw [← List.head?_drop, here, List.head?_cons]
  obtain ⟨inRange, isOutpoint⟩ := List.getElem?_eq_some_iff.mp atIndex
  show List.map Utxo.outpoint (session.wallet.utxos.set index _) = session.wallet.outpoints
  rw [List.map_set]
  show session.wallet.outpoints.set index utxo.outpoint = session.wallet.outpoints
  rw [← isOutpoint]
  exact List.set_getElem_self inRange

theorem resyncFrom_outpoints (coins : List Utxo) :
    ∀ {index : Nat} {session : Session ω},
      session.wallet.outpoints.drop index = coins.map Utxo.outpoint →
      (resyncFrom env index coins session).2.wallet.outpoints = session.wallet.outpoints := by
  induction coins with
  | nil => exact fun _ => rfl
  | cons utxo rest ih =>
      intro index session here
      have kept := @resyncCoin_outpoints _ env _ _ _ _ here
      rw [resyncFrom, Action.bind_apply]
      rcases run : resyncCoin env index utxo session with ⟨error | value, middle⟩
      · rw [run] at kept
        exact kept
      · rw [run] at kept
        have later : middle.wallet.outpoints.drop (index + 1) = rest.map Utxo.outpoint := by
          rw [kept, ← List.drop_drop, here]
          rfl
        exact (ih later).trans kept

theorem resync_outpoints (session : Session ω) :
    (resync env session).2.wallet.outpoints = session.wallet.outpoints := by
  unfold resync
  rw [Action.bind_apply]
  rcases run : readTip env session.world with ⟨error | ⟨tip, height, lastTime⟩, world⟩
  · rw [onWorld, run]
  · rw [onWorld, run]
    exact resyncFrom_outpoints _ rfl

/-! ## Runs -/

/-- Each transaction the call scans, the node having answered its id or accepted the block that
carries it, and each coinbase it caches pays no coin that is cached when its turn comes, but for
coins the transaction spends. -/
def FreshCall (lib : Btclib) (env : Environment ω) (call : Call) (session : Session ω) : Prop :=
  match call with
  | .generate count confirm => FreshBlocks lib env count.toNat confirm session
  | .sendSelfTransfer options => ∀ tx reached,
      createSelfTransfer lib options session = (.ok tx, reached) →
        FreshSends lib env [tx] reached.wallet reached.world
  | .sendSelfTransferMulti options => ∀ tx reached,
      createSelfTransferMulti lib options session = (.ok tx, reached) →
        FreshSends lib env [tx] reached.wallet reached.world
  | .sendSelfTransferChain chainLength utxoToSpend => ∀ chain reached,
      createSelfTransferChain lib chainLength utxoToSpend session = (.ok chain, reached) →
        FreshSends lib env chain reached.wallet reached.world
  | .sendTo scriptPubKey value => ∀ utxo reached tx,
      getUtxo none none true false session = (.ok utxo, reached) →
        sendToOf lib scriptPubKey value utxo = .ok tx →
          FreshSends lib env [tx] reached.wallet reached.world
  | _ => True

theorem perform_nodup (laws : BlockLaws lib) {call : Call} {session : Session ω}
    (distinct : session.wallet.outpoints.Nodup) (fresh : FreshCall lib env call session) :
    (perform lib env call session).wallet.outpoints.Nodup := by
  cases call with
  | generate count confirm => exact generateLoop_nodup laws count.toNat distinct fresh
  | resync =>
      rw [perform, resync_outpoints]
      exact distinct
  | getUtxo txid vout markAsSpent confirmedOnly =>
      exact (getUtxo_thins txid vout markAsSpent confirmedOnly session).nodup distinct
  | getUtxos includeImmatureCoinbase markAsSpent confirmedOnly =>
      exact (getUtxos_thins includeImmatureCoinbase markAsSpent confirmedOnly session).nodup distinct
  | createSelfTransfer options => exact (createSelfTransfer_thins lib options session).nodup distinct
  | createSelfTransferMulti options =>
      exact (createSelfTransferMulti_thins lib options session).nodup distinct
  | createSelfTransferChain chainLength utxoToSpend =>
      exact (createChainFrom_thins lib chainLength.toNat utxoToSpend session).nodup distinct
  | sendSelfTransfer options =>
      apply madeThenSent_nodup (createSelfTransfer_thins lib options) distinct
      exact fun tx reached made reachedDistinct => send_nodup reachedDistinct (fresh tx reached made)
  | sendSelfTransferMulti options =>
      apply madeThenSent_nodup (createSelfTransferMulti_thins lib options) distinct
      exact fun tx reached made reachedDistinct => send_nodup reachedDistinct (fresh tx reached made)
  | sendSelfTransferChain chainLength utxoToSpend =>
      apply madeThenSent_nodup (createChainFrom_thins lib chainLength.toNat utxoToSpend) distinct
      intro chain reached made reachedDistinct
      have sent := sendEach_nodup chain reachedDistinct (fresh chain reached made)
      rw [Action.bind_apply]
      rcases run : sendEach lib env chain reached with ⟨error | value, final⟩
      · rw [run] at sent
        exact sent
      · rw [run] at sent
        exact sent
  | sendTo scriptPubKey value =>
      apply madeThenSent_nodup (getUtxo_thins none none true false) distinct
      intro utxo reached taken reachedDistinct
      rw [Action.bind_apply]
      rcases made : sendToOf lib scriptPubKey value utxo with error | tx
      · exact reachedDistinct
      · exact send_nodup reachedDistinct (fresh utxo reached tx taken made)

/-- The sessions of a wallet whose calls are each `allowed` where they are made, the
world moving between them in any way. -/
inductive Run (lib : Btclib) (env : Environment ω) (allowed : Call → Session ω → Prop) :
    Session ω → Prop where
  | constructed {wallet : Wallet} {before world : ω}
      (built : construct env before = (.ok wallet, world)) :
      Run lib env allowed ⟨wallet, world, [], []⟩
  | called {session : Session ω} (call : Call) (run : Run lib env allowed session)
      (isAllowed : allowed call session) : Run lib env allowed (perform lib env call session)
  | moved {session : Session ω} (world : ω) (run : Run lib env allowed session) :
      Run lib env allowed { session with world := world }

theorem construct_utxos {before world : ω} {wallet : Wallet}
    (built : construct env before = (.ok wallet, world)) : wallet.utxos = [] := by
  obtain ⟨tip, reached, run, rest⟩ := Action.bind_ok_iff.mp built
  simp only [Action.pure_apply, Prod.mk.injEq, Except.ok.injEq] at rest
  rw [← rest.1]

/-- In every run whose calls are fresh no outpoint is cached twice, and the balance
counts each coin once. -/
theorem fresh_run_outpoints_distinct (laws : BlockLaws lib) {session : Session ω}
    (run : Run lib env (FreshCall lib env) session) :
    session.wallet.outpoints.Nodup ∧
      session.wallet.getBalance = ∑ utxo ∈ session.wallet.utxos.toFinset, utxo.value := by
  have distinct : session.wallet.outpoints.Nodup := by
    induction run with
    | constructed built =>
        rw [outpoints, construct_utxos built]
        exact List.nodup_nil
    | called call run isFresh ih => exact perform_nodup laws ih isFresh
    | moved world run ih => exact ih
  exact ⟨distinct, (List.sum_toFinset Utxo.value distinct.of_map).symm⟩

/-- A node that accepts what it is sent and answers a transaction's own id, again where
it is sent again: the id is the encoding here. -/
def echo : Environment Unit where
  call method params world :=
    (match method, params with
      | "getbestblockhash", _ => .ok (.str (hex [1]))
      | "getblockcount", _ => .ok (.int 3)
      | "getblockchaininfo", _ => .ok (.object [("mediantime", .int 110)])
      | "sendrawtransaction", encoded :: _ => .ok encoded
      | _, _ => .ok .null, world)
  clock world := (1000, world)

def echoWallet : Wallet := ⟨[], ∅, [1], 3, 110⟩

theorem echo_construct : construct echo () = (.ok echoWallet, ()) := by
  simp [construct, readTip, rpcCall, echo, Action.bind_apply, orRaise, Json.asStr, Json.asInt,
    Json.get, echoWallet]

def firstCoin : Utxo :=
  coinbaseCoin PlainLib.lib 4 (PlainLib.coinbase 4 [0x51] REGTEST_SUBSIDY_HALVING_INTERVAL)

def spendFirst : Call := .sendSelfTransfer { SelfTransfer.default with utxoToSpend := some firstCoin }

def mineOnEcho (count : Int) : Session Unit :=
  perform PlainLib.lib echo (.generate count []) ⟨echoWallet, (), [], []⟩

theorem fresh_run_outpoints_distinct_echo :
    (perform PlainLib.lib echo spendFirst (mineOnEcho 1)).wallet.outpoints.Nodup ∧
      (perform PlainLib.lib echo spendFirst (mineOnEcho 1)).wallet.getBalance =
        ∑ utxo ∈ (perform PlainLib.lib echo spendFirst (mineOnEcho 1)).wallet.utxos.toFinset,
          utxo.value := by
  apply fresh_run_outpoints_distinct PlainLib.blockLaws
  apply Run.called
  · apply Run.called _ (.constructed echo_construct)
    intro mined world submitted
    refine ⟨trivial, fun wallet later read => ⟨fun outpoint _ => ?_, fun _ _ => trivial⟩⟩
    rw [read.nothing]
    exact List.not_mem_nil
  · intro tx reached made
    rw [createSelfTransfer] at made
    cases made
    exact fun middle _ => ⟨by decide, trivial⟩

/-- The first coin is mined and matures, and a transaction spending it is sent twice. -/
def resent : Session Unit :=
  perform PlainLib.lib echo spendFirst (perform PlainLib.lib echo spendFirst (mineOnEcho 101))

set_option maxRecDepth 100000 in
theorem resent_coin_cached_twice :
    Function.Injective PlainLib.lib.txId ∧
      (∀ tx octets, PlainLib.lib.serialize tx = some octets →
        echo.call "sendrawtransaction" [.str (hex octets), .int 0] () =
          (.ok (.str (hex (PlainLib.lib.txId tx))), ())) ∧
      Run PlainLib.lib echo (fun _ _ => True) resent ∧ ¬ resent.wallet.outpoints.Nodup := by
  refine ⟨PlainLib.txId_injective, ?_, ?_, ?_⟩
  · intro tx octets serialized
    cases serialized
    rfl
  · have mined : Run PlainLib.lib echo (fun _ _ => True) (mineOnEcho 101) :=
      .called (.generate 101 []) (.constructed echo_construct) trivial
    exact Run.called spendFirst (Run.called spendFirst mined trivial) trivial
  · decide +kernel

end Session

end BitcoinNodeTests
