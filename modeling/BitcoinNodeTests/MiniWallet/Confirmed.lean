import Mathlib.Data.Finset.Union
import BitcoinNodeTests.MiniWallet.Accepted

/-!
# What a block confirms

`generate` scans the transactions it confirms in their order, one it has scanned before for
what it spends alone.  Parents coming first, the cache it ends with does not depend on the
order: the old coins nothing in the block spends, and the new ones that neither the block
nor the mempool does.
-/

set_option autoImplicit false

namespace BitcoinNodeTests

open Foundation

namespace Wallet

def spentBy (confirm : List Tx) : List OutPoint := confirm.flatMap Tx.spends

def paidBy (lib : Btclib) (confirm : List Tx) (wallet : Wallet) : List Utxo :=
  (confirm.filter fun tx => lib.txId tx ∉ wallet.scanned).flatMap (newUtxos lib)

/-- No transaction spends an output of its own or of a later one. -/
def ParentsFirst (lib : Btclib) : List Tx → Prop
  | [] => True
  | tx :: rest =>
      (∀ outpoint ∈ tx.spends, outpoint.txId ∉ (tx :: rest).map lib.txId) ∧ ParentsFirst lib rest

section Scan

variable {lib : Btclib}

theorem paidBy_txId {confirm : List Tx} {wallet : Wallet} {utxo : Utxo}
    (paid : utxo ∈ wallet.paidBy lib confirm) :
    utxo.outpoint.txId ∈ confirm.map lib.txId ∧ utxo.outpoint.txId ∉ wallet.scanned := by
  obtain ⟨tx, among, paidByTx⟩ := List.mem_flatMap.mp paid
  obtain ⟨member, unscanned⟩ := List.mem_filter.mp among
  rw [newUtxos_txId paidByTx]
  exact ⟨List.mem_map_of_mem member, of_decide_eq_true unscanned⟩

/-- What is paid does not change as a transaction of another id is scanned. -/
theorem paidBy_scanTx {tx : Tx} {rest : List Tx} (wallet : Wallet)
    (other : lib.txId tx ∉ rest.map lib.txId) :
    (wallet.scanTx lib tx).paidBy lib rest = wallet.paidBy lib rest := by
  unfold paidBy
  congr 1
  apply List.filter_congr
  intro later member
  have apart : lib.txId later ≠ lib.txId tx := by
    intro same
    exact other (same ▸ List.mem_map_of_mem member)
  simp only [scanTx, forget, Finset.mem_insert, apart, false_or]

theorem filter_spends {tx : Tx} {rest : List Tx} (utxos : List Utxo) :
    (utxos.filter fun utxo => utxo.outpoint ∉ tx.spends).filter
        (fun utxo => utxo.outpoint ∉ spentBy rest) =
      utxos.filter fun utxo => utxo.outpoint ∉ spentBy (tx :: rest) := by
  rw [List.filter_filter]
  apply List.filter_congr
  intro utxo _
  have spent : spentBy (tx :: rest) = tx.spends ++ spentBy rest := rfl
  rw [spent]
  by_cases first : utxo.outpoint ∈ tx.spends
  · simp [first]
  · simp [first]

/-- A coin `tx` does not spend is spent by it and the rest where the rest spends it. -/
theorem filter_unspent {tx : Tx} {rest : List Tx} {utxos : List Utxo}
    (unspent : ∀ utxo ∈ utxos, utxo.outpoint ∉ tx.spends) :
    utxos.filter (fun utxo => utxo.outpoint ∉ spentBy rest) =
      utxos.filter fun utxo => utxo.outpoint ∉ spentBy (tx :: rest) := by
  have kept : (utxos.filter fun utxo => utxo.outpoint ∉ tx.spends) = utxos :=
    List.filter_eq_self.mpr fun utxo member => decide_eq_true (unspent utxo member)
  rw [← filter_spends, kept]

/-- The scan of a block's transactions, parents first: the order does not show. -/
theorem scanConfirmed_eq {confirm : List Tx} (distinct : (confirm.map lib.txId).Nodup)
    (parents : ParentsFirst lib confirm) (wallet : Wallet) :
    wallet.scanConfirmed lib confirm =
      ((wallet.paidBy lib confirm).map Utxo.outpoint,
        { wallet with
          utxos := (wallet.utxos.filter fun utxo => utxo.outpoint ∉ spentBy confirm) ++
            (wallet.paidBy lib confirm).filter fun utxo => utxo.outpoint ∉ spentBy confirm
          scanned := wallet.scanned ∪ (confirm.map lib.txId).toFinset }) := by
  induction confirm generalizing wallet with
  | nil =>
      have old : (wallet.utxos.filter fun utxo => utxo.outpoint ∉ spentBy []) = wallet.utxos :=
        List.filter_eq_self.mpr fun utxo _ => decide_eq_true List.not_mem_nil
      have new : wallet.paidBy lib [] = [] := rfl
      rw [old, new]
      simp [scanConfirmed]
  | cons tx rest ih =>
      obtain ⟨new, distinctRest⟩ := List.nodup_cons.mp distinct
      obtain ⟨notOurs, parentsRest⟩ := parents
      have laterUnspent : ∀ utxo ∈ wallet.paidBy lib rest, utxo.outpoint ∉ tx.spends := by
        intro utxo paid spent
        exact notOurs _ spent (List.mem_cons_of_mem _ (paidBy_txId paid).1)
      unfold scanConfirmed
      by_cases scanned : lib.txId tx ∈ wallet.scanned
      · have paid : wallet.paidBy lib (tx :: rest) = wallet.paidBy lib rest := by
          unfold paidBy
          rw [List.filter_cons_of_neg (by simpa using scanned)]
        have forgets : (wallet.forget tx.spends).paidBy lib rest = wallet.paidBy lib rest := rfl
        rw [if_pos scanned, ih distinctRest parentsRest, paid, forgets,
          filter_unspent laterUnspent]
        have ids : wallet.scanned ∪ ((tx :: rest).map lib.txId).toFinset =
            wallet.scanned ∪ (rest.map lib.txId).toFinset := by
          rw [List.map_cons, List.toFinset_cons, Finset.union_insert,
            Finset.insert_eq_of_mem (Finset.mem_union_left _ scanned)]
        rw [ids, ← filter_spends wallet.utxos]
        rfl
      · have ownUnspent : ∀ utxo ∈ newUtxos lib tx, utxo.outpoint ∉ tx.spends := by
          intro utxo paid spent
          have own := newUtxos_txId paid
          exact notOurs _ spent (own ▸ List.mem_cons_self)
        have paid : wallet.paidBy lib (tx :: rest) = newUtxos lib tx ++ wallet.paidBy lib rest := by
          unfold paidBy
          rw [List.filter_cons_of_pos (by simpa using scanned), List.flatMap_cons]
        have ids : wallet.scanned ∪ ((tx :: rest).map lib.txId).toFinset =
            insert (lib.txId tx) wallet.scanned ∪ (rest.map lib.txId).toFinset := by
          rw [List.map_cons, List.toFinset_cons, Finset.union_insert, Finset.insert_union]
        have old : ((wallet.scanTx lib tx).utxos.filter fun utxo => utxo.outpoint ∉ spentBy rest) =
            (wallet.utxos.filter fun utxo => utxo.outpoint ∉ spentBy (tx :: rest)) ++
              (newUtxos lib tx).filter fun utxo => utxo.outpoint ∉ spentBy (tx :: rest) := by
          rw [← filter_unspent ownUnspent, ← filter_spends wallet.utxos, ← List.filter_append]
          rfl
        rw [if_neg scanned, ih distinctRest parentsRest, paid, paidBy_scanTx wallet new, old, ids,
          List.map_append, List.filter_append, filter_unspent laterUnspent, List.append_assoc]
        rfl

end Scan

/-! ## The block recorded -/

def confirmedTo (lib : Btclib) (height : Int) (confirm : List Tx) (utxo : Utxo) : Utxo :=
  if utxo.outpoint.txId ∈ confirm.map lib.txId then { utxo with height := height } else utxo

/-- The coins `confirm` leaves of those it paid, a mempool spending `spends`. -/
def newlyPaid (lib : Btclib) (confirm : List Tx) (spends : List OutPoint) (wallet : Wallet) :
    List Utxo :=
  (wallet.paidBy lib confirm).filter fun utxo =>
    utxo.outpoint ∉ spentBy confirm ∧ utxo.outpoint ∉ spends

def unspentBy (confirm : List Tx) (wallet : Wallet) : List Utxo :=
  wallet.utxos.filter fun utxo => utxo.outpoint ∉ spentBy confirm

/-- Those of them that the mempool does not spend either, where they are coins of a
transaction of `confirm` not scanned before. -/
def survivors (lib : Btclib) (confirm : List Tx) (spends : List OutPoint) (wallet : Wallet) :
    List Utxo :=
  (wallet.unspentBy confirm).filter fun utxo =>
    ¬ (utxo.outpoint ∈ (wallet.paidBy lib confirm).map Utxo.outpoint ∧ utxo.outpoint ∈ spends)

/-- `old` as the block leaves them, the new coins nothing spends at its height, and the
coinbases; the ids confirmed are scanned; and no other coin of a transaction scanned before
is there. -/
structure Confirms (lib : Btclib) (confirm : List Tx) (height : Int) (spends : List OutPoint)
    (old coinbases : List Utxo) (before after : Wallet) : Prop where
  utxos : after.utxos = old.map (confirmedTo lib height confirm) ++
    (before.newlyPaid lib confirm spends).map (fun utxo => { utxo with height := height }) ++
      coinbases
  scanned : after.scanned = before.scanned ∪ (confirm.map lib.txId).toFinset
  taken : ∀ utxo ∈ after.utxos, utxo.outpoint.txId ∈ before.scanned →
    utxo ∈ coinbases ∨ utxo.outpoint ∈ before.outpoints

section Confirms

variable {lib : Btclib} {confirm : List Tx}

theorem confirmedTo_outpoint (height : Int) (utxo : Utxo) :
    (confirmedTo lib height confirm utxo).outpoint = utxo.outpoint := by
  unfold confirmedTo
  split
  · rfl
  · rfl

theorem map_confirmedTo_filter (lib : Btclib) (confirm : List Tx) (height : Int) (utxos : List Utxo) (kept : OutPoint → Bool) :
    (utxos.map (confirmedTo lib height confirm)).filter (fun utxo => kept utxo.outpoint) =
      (utxos.filter fun utxo => kept utxo.outpoint).map (confirmedTo lib height confirm) := by
  rw [List.filter_map]
  congr 2
  funext utxo
  exact congrArg kept (confirmedTo_outpoint height utxo)

theorem scanned_forget (distinct : (confirm.map lib.txId).Nodup)
    (parents : ParentsFirst lib confirm) (wallet : Wallet) (height : Int)
    (spends : List OutPoint) :
    (((wallet.scanConfirmed lib confirm).2.confirmAt lib height confirm).forget
        ((wallet.scanConfirmed lib confirm).1.filter (· ∈ spends))).utxos =
      (wallet.survivors lib confirm spends).map (confirmedTo lib height confirm) ++
        (wallet.newlyPaid lib confirm spends).map fun utxo => { utxo with height := height } := by
  have spentNew (outpoint : OutPoint) :
      outpoint ∈ ((wallet.paidBy lib confirm).map Utxo.outpoint).filter (· ∈ spends) ↔
        outpoint ∈ (wallet.paidBy lib confirm).map Utxo.outpoint ∧ outpoint ∈ spends := by
    rw [List.mem_filter, decide_eq_true_iff]
  have old : (wallet.unspentBy confirm).filter (fun utxo => utxo.outpoint ∉
      ((wallet.paidBy lib confirm).map Utxo.outpoint).filter (· ∈ spends)) =
        wallet.survivors lib confirm spends := by
    apply List.filter_congr
    intro utxo _
    rw [decide_eq_decide, spentNew]
  have new : ((wallet.paidBy lib confirm).filter fun utxo =>
      utxo.outpoint ∉ spentBy confirm).filter (fun utxo => utxo.outpoint ∉
        ((wallet.paidBy lib confirm).map Utxo.outpoint).filter (· ∈ spends)) =
          wallet.newlyPaid lib confirm spends := by
    unfold newlyPaid
    rw [List.filter_filter]
    apply List.filter_congr
    intro utxo paid
    have outpoint : utxo.outpoint ∈ (wallet.paidBy lib confirm).map Utxo.outpoint :=
      List.mem_map_of_mem paid
    rw [← Bool.decide_and, decide_eq_decide, spentNew]
    simp only [outpoint, true_and, and_comm]
  have heights : (wallet.newlyPaid lib confirm spends).map (confirmedTo lib height confirm) =
      (wallet.newlyPaid lib confirm spends).map fun utxo => { utxo with height := height } := by
    apply List.map_congr_left
    intro utxo member
    exact if_pos (paidBy_txId (List.mem_of_mem_filter member)).1
  have left := map_confirmedTo_filter lib confirm height
    (wallet.unspentBy confirm ++ (wallet.paidBy lib confirm).filter fun utxo =>
      utxo.outpoint ∉ spentBy confirm)
    fun outpoint => outpoint ∉ ((wallet.paidBy lib confirm).map Utxo.outpoint).filter (· ∈ spends)
  rw [List.filter_append, old, new] at left
  rw [← heights, ← List.map_append, ← left, scanConfirmed_eq distinct parents]
  rfl

theorem scanned_ids (distinct : (confirm.map lib.txId).Nodup)
    (parents : ParentsFirst lib confirm) (wallet : Wallet) :
    (wallet.scanConfirmed lib confirm).2.scanned =
      wallet.scanned ∪ (confirm.map lib.txId).toFinset := by
  rw [scanConfirmed_eq distinct parents]

end Confirms

end Wallet

namespace Session

open Wallet

variable {ω : Type} {lib : Btclib} {env : Environment ω} {confirm : List Tx} {session : Session ω}

/-- The cache before the coinbase, where the mempool that may be asked for spends `spends`. -/
theorem MempoolRead.eq_forget {spends : List OutPoint} {world later : ω} {wallet : Wallet}
    (read : MempoolRead lib env confirm session world wallet later)
    (answered : (scanOf lib confirm session).1 ≠ [] →
      ∃ later, mempoolSpends lib env world = (.ok spends, later)) :
    wallet = (afterScan lib confirm session).forget
      ((scanOf lib confirm session).1.filter (· ∈ spends)) := by
  cases read with
  | unneeded nothing =>
      rw [nothing]
      unfold Wallet.forget
      simp
  | read added isAnswered =>
      obtain ⟨later, same⟩ := answered added
      rw [same] at isAnswered
      cases isAnswered
      rfl

theorem generateNext_accepted (lib : Btclib) (env : Environment ω) (extra : List Tx)
    (session : Session ω) :
    (generateNext lib env extra session).2.accepted.length ≤ session.accepted.length + 1 := by
  have turn := generateNext_turn lib env extra session
  rcases run : generateNext lib env extra session with ⟨result, middle⟩
  rw [run] at turn
  cases turn <;> simp [withMined, withAccepted]

theorem generateLoop_accepted (lib : Btclib) (env : Environment ω) (count : Nat) :
    ∀ (extra : List Tx) (session : Session ω),
      (generateLoop lib env count extra session).2.accepted.length ≤
        session.accepted.length + count := by
  induction count with
  | zero => exact fun _ _ => le_rfl
  | succ count ih =>
      intro extra session
      have one := generateNext_accepted lib env extra session
      rcases run : generateNext lib env extra session with ⟨error | hash, middle⟩
      · rw [run] at one
        rw [generateLoop_of_error run]
        omega
      · rw [run] at one
        rw [generateLoop_of_ok run]
        have later := ih [] middle
        dsimp only at one ⊢
        omega

/-- A call whose first block the node accepts, the mempool read it needs answering. -/
theorem generate_records (laws : BlockLaws lib) {count : Int} (positive : 1 ≤ count)
    {mined : Mined} {world : ω}
    (submitted : Submitted lib env confirm session mined (.ok .null) world)
    {spends : List OutPoint}
    (answered : (scanOf lib confirm session).1 ≠ [] →
      ∃ later, mempoolSpends lib env world = (.ok spends, later)) :
    ∃ later, (generate lib env count confirm session).2.accepted =
        session.accepted ++ mined :: later ∧ ((later.length : Int) < count) ∧
      (generate lib env count confirm session).2.wallet =
        recordAll lib (mined :: later) ((afterScan lib confirm session).forget
          ((scanOf lib confirm session).1.filter (· ∈ spends))) := by
  have bound := generateLoop_accepted lib env count.toNat confirm session
  have ends := (generateLoop_ends env laws count.toNat confirm session).1
  unfold generate
  cases ends with
  | unaccepted _ _ none => exact absurd submitted (none (by omega) _ _)
  | unread _ submitted' added failed _ _ =>
      obtain ⟨-, -, rfl⟩ := submitted.unique submitted'
      obtain ⟨later, read⟩ := answered added
      rw [failed] at read
      cases read
  | recorded submitted' read accepted recorded _ =>
      obtain ⟨rfl, -, rfl⟩ := submitted.unique submitted'
      refine ⟨_, accepted, ?_, ?_⟩
      · rw [accepted, List.length_append, List.length_cons] at bound
        omega
      · rw [recorded, read.eq_forget answered]

theorem recordAll_scanned (accepted : List Mined) (wallet : Wallet) :
    (recordAll lib accepted wallet).scanned = wallet.scanned := by
  induction accepted generalizing wallet with
  | nil => rfl
  | cons mined rest ih => exact ih (recordMined lib mined wallet)

/-- Once the node accepts the first block of `generate`, and answers the mempool read where
one is made, the cache is exactly the old coins that nothing in the block spends, the new
ones that neither the block nor the mempool spends, and the coinbases of the blocks
accepted: an old coin at an outpoint of a transaction not scanned before counts as new. -/
theorem generate_confirms (laws : BlockLaws lib) (count : Int) (positive : 1 ≤ count)
    (distinct : (confirm.map lib.txId).Nodup) (parents : ParentsFirst lib confirm)
    (mined : Mined) (world : ω)
    (submitted : Submitted lib env confirm session mined (.ok .null) world)
    (spends : List OutPoint)
    (answered : (scanOf lib confirm session).1 ≠ [] →
      ∃ later, mempoolSpends lib env world = (.ok spends, later)) :
    ∃ later, (generate lib env count confirm session).2.accepted =
        session.accepted ++ mined :: later ∧ (later.length : Int) < count ∧
      Confirms lib confirm mined.height spends (session.wallet.survivors lib confirm spends)
        ((mined :: later).filterMap (coinOf lib)) session.wallet
          (generate lib env count confirm session).2.wallet := by
  obtain ⟨later, accepted, few, wallet⟩ := generate_records laws positive submitted answered
  refine ⟨later, accepted, few, ?_⟩
  obtain ⟨_, next⟩ := submitted.mined
  have height : mined.height = session.wallet.height + 1 := next.1
  have utxos := scanned_forget distinct parents session.wallet mined.height spends
  have ids := scanned_ids distinct parents session.wallet
  rw [height] at utxos
  refine ⟨?_, ?_, ?_⟩
  · rw [wallet, recordAll_utxos, height, ← utxos]
    rfl
  · rw [wallet, recordAll_scanned, ← ids]
    rfl
  · intro utxo member before
    rw [wallet, recordAll_utxos] at member
    rcases List.mem_append.mp member with kept | coinbase
    · right
      have among : utxo ∈ ((afterScan lib confirm session).forget
          ((scanOf lib confirm session).1.filter (· ∈ spends))).utxos := kept
      have cache : ((afterScan lib confirm session).forget
          ((scanOf lib confirm session).1.filter (· ∈ spends))).utxos = _ := utxos
      rw [cache] at among
      rcases List.mem_append.mp among with old | new
      · obtain ⟨coin, survives, rfl⟩ := List.mem_map.mp old
        rw [confirmedTo_outpoint]
        exact List.mem_map_of_mem (List.mem_of_mem_filter (List.mem_of_mem_filter survives))
      · obtain ⟨coin, paid, rfl⟩ := List.mem_map.mp new
        exact absurd before (paidBy_txId (List.mem_of_mem_filter paid)).2
    · exact .inl coinbase

/-! ## A mempool that spends what a block confirms -/

def onward : Tx :=
  ⟨2, 0, [⟨⟨PlainLib.lib.txId payment, 0⟩, [], 0, PlainLib.lib.witness⟩], [⟨900, [0x52]⟩]⟩

def pending : Environment Unit where
  call method _ world :=
    (match method with
      | "getrawmempool" => .ok (.array [.str "aa"])
      | "getrawtransaction" => .ok (.str (hex (PlainLib.tx.write onward)))
      | _ => .ok .null, world)
  clock world := (1000, world)

theorem pending_mempoolSpends :
    mempoolSpends PlainLib.lib pending () = (.ok [⟨PlainLib.lib.txId payment, 0⟩], ()) := by
  have parsed := PlainLib.parse_serialize onward
  simp [mempoolSpends, mempoolSpendsOf, mempoolTxSpends, rpcCall, pending, Action.bind_apply,
    orRaise, Json.asArray, Json.asStr, fromHex_hex, parsed]
  rfl

def carrying : Mined :=
  let transactions := [PlainLib.coinbase 4 [0x51] REGTEST_SUBSIDY_HALVING_INTERVAL, payment]
  ⟨4, ⟨⟨0x20000000, [1], transactions.flatMap PlainLib.tx.write, 1000, [0x20, 0x7f, 0xff, 0xff],
    0⟩, transactions⟩, 1000⟩

def oneAtThree : Session Unit := ⟨⟨[⟨⟨[9], 0⟩, 500, 2, false⟩], {[9]}, [1], 3, 110⟩, (), [], []⟩

/-- At height 3, with the coin of `payment` cached although it was never scanned. -/
def unscannedAtThree : Session Unit :=
  ⟨⟨[⟨⟨PlainLib.lib.txId payment, 0⟩, 1000, 0, false⟩], ∅, [1], 3, 110⟩, (), [], []⟩

theorem submitted_carrying {session : Session Unit} (tip : session.wallet.tip = [1])
    (height : session.wallet.height = 3) (lastTime : session.wallet.lastTime = 110) :
    Submitted PlainLib.lib pending [payment] session carrying (.ok .null) () := by
  refine ⟨(), PlainLib.block.write carrying.block, ⟨?_, ?_⟩, rfl, rfl⟩
  · rw [height]
    rfl
  · rw [tip, lastTime]
    rfl

theorem generate_confirms_payment :
    Confirms PlainLib.lib [payment] 4 [⟨PlainLib.lib.txId payment, 0⟩]
      (oneAtThree.wallet.survivors PlainLib.lib [payment] [⟨PlainLib.lib.txId payment, 0⟩])
        ([carrying].filterMap (coinOf PlainLib.lib)) oneAtThree.wallet
          (generate PlainLib.lib pending 1 [payment] oneAtThree).2.wallet := by
  have parents : ParentsFirst PlainLib.lib [payment] := ⟨by decide, trivial⟩
  have submitted : Submitted PlainLib.lib pending [payment] oneAtThree carrying (.ok .null) () :=
    submitted_carrying rfl rfl rfl
  obtain ⟨later, -, few, confirms⟩ := generate_confirms PlainLib.blockLaws 1 le_rfl (by decide)
    parents carrying () submitted [⟨PlainLib.lib.txId payment, 0⟩]
      fun _ => ⟨(), pending_mempoolSpends⟩
  have none : later = [] := List.eq_nil_of_length_eq_zero (by omega)
  rw [none] at confirms
  exact confirms

/-- An old coin that no transaction confirmed spends is gone: the mempool spends it, and it
is a coin of a transaction the block makes the wallet scan. -/
theorem generate_drops_old_coin :
    mempoolSpends PlainLib.lib pending () = (.ok [⟨PlainLib.lib.txId payment, 0⟩], ()) ∧
      Submitted PlainLib.lib pending [payment] unscannedAtThree carrying (.ok .null) () ∧
      ([payment].map PlainLib.lib.txId).Nodup ∧ ParentsFirst PlainLib.lib [payment] ∧
      ¬ Confirms PlainLib.lib [payment] 4 [⟨PlainLib.lib.txId payment, 0⟩]
        (unscannedAtThree.wallet.unspentBy [payment]) ([carrying].filterMap (coinOf PlainLib.lib))
          unscannedAtThree.wallet
            (generate PlainLib.lib pending 1 [payment] unscannedAtThree).2.wallet := by
  refine ⟨pending_mempoolSpends, submitted_carrying rfl rfl rfl, by decide, ⟨by decide, trivial⟩, ?_⟩
  intro confirms
  have lengths := congrArg List.length confirms.utxos
  revert lengths
  decide +kernel

end Session

end BitcoinNodeTests
