import BitcoinNodeTests.MiniWallet.Confirmed
import BitcoinNodeTests.MiniWallet.Distinct
import BitcoinNodeTests.MiniWallet.Ledger

/-!
# The balance is what the books say

The cache and the books agree after every call: each cached coin is the coinbase of a block
or an output of a transaction sent, no transaction sent spends it, and what the coins are
worth is the subsidies less the fees and what was paid away.
-/

set_option autoImplicit false

namespace BitcoinNodeTests

open Foundation Keyed

def Ledger.Backs (lib : Btclib) (ledger : Ledger) (coin : Utxo) : Prop :=
  (∃ mined ∈ ledger.blocks, ∃ paid, Session.coinOf lib mined = some paid ∧
    paid.outpoint = coin.outpoint ∧ paid.value = coin.value) ∨
  ∃ spending ∈ ledger.sent, ∃ paid ∈ Wallet.newUtxos lib spending.tx,
    paid.outpoint = coin.outpoint ∧ paid.value = coin.value

/-- The transaction's inputs name its coins, each of which the books back. -/
def Ledger.Honest (lib : Btclib) (ledger : Ledger) (spending : Spending) : Prop :=
  spending.tx.spends = spending.coins.map Utxo.outpoint ∧
    ∀ coin ∈ spending.coins, ledger.Backs lib coin

structure Balanced (lib : Btclib) (wallet : Wallet) (ledger : Ledger) : Prop where
  distinct : wallet.outpoints.Nodup
  backed : ∀ coin ∈ wallet.utxos, ledger.Backs lib coin
  honest : ∀ spending ∈ ledger.sent, ledger.Honest lib spending
  unspent : ∀ spending ∈ ledger.sent, ∀ coin ∈ wallet.utxos, coin.outpoint ∉ spending.tx.spends
  scanned : ∀ spending ∈ ledger.sent, lib.txId spending.tx ∈ wallet.scanned
  balance : wallet.getBalance = ledger.balance lib

section Values

variable {lib : Btclib}

def awayOf (lib : Btclib) (tx : Tx) : Int :=
  ((tx.vout.filter fun txOut => txOut.scriptPubKey ≠ lib.anyoneCanSpend).map TxOut.value).sum

theorem newUtxos_total (tx : Tx) : totalOf (Wallet.newUtxos lib tx) + awayOf lib tx = tx.total := by
  have indexed (vout : List TxOut) (index : Nat) :
      totalOf ((vout.zipIdx index).filterMap fun indexed =>
          if indexed.1.scriptPubKey = lib.anyoneCanSpend then
            some (⟨⟨lib.txId tx, indexed.2⟩, indexed.1.value, 0, false⟩ : Utxo)
          else none) +
        ((vout.filter fun txOut => txOut.scriptPubKey ≠ lib.anyoneCanSpend).map TxOut.value).sum =
          (vout.map TxOut.value).sum := by
    induction vout generalizing index with
    | nil => rfl
    | cons txOut rest ih =>
        have later := ih (index + 1)
        by_cases ours : txOut.scriptPubKey = lib.anyoneCanSpend
        · simp only [totalOf, List.zipIdx_cons, List.filterMap_cons, ours, if_true, List.map_cons,
            List.sum_cons, ne_eq, not_true_eq_false, decide_false, Bool.false_eq_true,
            not_false_eq_true, List.filter_cons_of_neg] at later ⊢
          omega
        · simp only [totalOf, List.zipIdx_cons, List.filterMap_cons, ours, if_false, List.map_cons,
            List.sum_cons, ne_eq, not_false_eq_true, decide_true, List.filter_cons_of_pos]
            at later ⊢
          omega
  exact indexed tx.vout 0

theorem awayOf_zero {tx : Tx}
    (ours : ∀ txOut ∈ tx.vout, txOut.scriptPubKey = lib.anyoneCanSpend ∨ txOut.value = 0) :
    awayOf lib tx = 0 := by
  unfold awayOf
  apply List.sum_eq_zero
  intro value member
  obtain ⟨txOut, others, rfl⟩ := List.mem_map.mp member
  obtain ⟨among, other⟩ := List.mem_filter.mp others
  exact (ours txOut among).resolve_left (of_decide_eq_true other)

theorem isPadding_value {padding : List TxOut} (isPadding : IsPadding padding) :
    ∀ txOut ∈ padding, txOut.value = 0 := by
  rcases isPadding with rfl | ⟨count, rfl⟩
  · exact nofun
  · intro txOut member
    rw [List.mem_singleton.mp member]
    rfl

theorem awayOf_padded {tx : Tx} {count : Nat} {value : Int} {padding : List TxOut}
    (isPadding : IsPadding padding)
    (vout : tx.vout = List.replicate count ⟨value, lib.anyoneCanSpend⟩ ++ padding) :
    awayOf lib tx = 0 := by
  apply awayOf_zero
  intro txOut member
  rw [vout] at member
  rcases List.mem_append.mp member with ours | padded
  · rw [List.eq_of_mem_replicate ours]
    exact .inl rfl
  · exact .inr (isPadding_value isPadding txOut padded)

theorem awayOf_sendTo {tx : Tx} {change value : Int} {scriptPubKey : List Octet}
    (vout : tx.vout = [⟨change, lib.anyoneCanSpend⟩, ⟨value, scriptPubKey⟩]) :
    awayOf lib tx = if scriptPubKey = lib.anyoneCanSpend then 0 else value := by
  unfold awayOf
  rw [vout]
  by_cases own : scriptPubKey = lib.anyoneCanSpend
  · simp [own]
  · simp [own]

end Values

section Backs

variable {lib : Btclib} {ledger : Ledger} {coin : Utxo}

theorem Ledger.Backs.mem_ids (backs : ledger.Backs lib coin) :
    coin.outpoint.txId ∈ ledger.ids lib := by
  unfold Ledger.ids
  rcases backs with ⟨mined, among, paid, isPaid, outpoint, -⟩ |
    ⟨spending, among, paid, isPaid, outpoint, -⟩
  · rw [← outpoint]
    exact List.mem_append_left _
      (List.mem_map_of_mem (List.mem_filterMap.mpr ⟨mined, among, isPaid⟩))
  · rw [← outpoint, Wallet.newUtxos_txId isPaid]
    exact List.mem_append_right _ (List.mem_map.mpr ⟨spending, among, rfl⟩)

theorem Ledger.Backs.mono {more : Ledger} (backs : ledger.Backs lib coin)
    (blocks : ∀ mined ∈ ledger.blocks, mined ∈ more.blocks)
    (sent : ∀ spending ∈ ledger.sent, spending ∈ more.sent) : more.Backs lib coin := by
  rcases backs with ⟨mined, among, paid⟩ | ⟨spending, among, paid⟩
  · exact .inl ⟨mined, blocks mined among, paid⟩
  · exact .inr ⟨spending, sent spending among, paid⟩

theorem Ledger.Backs.congr {other : Utxo} (backs : ledger.Backs lib coin)
    (outpoint : other.outpoint = coin.outpoint) (value : other.value = coin.value) :
    ledger.Backs lib other := by
  unfold Ledger.Backs
  rw [outpoint, value]
  exact backs

end Backs

/-! ## One transaction sent -/

structure Picks (before after : Wallet) (coins : List Utxo) : Prop where
  utxos : (without Utxo.outpoint coins after.utxos).Perm
    (without Utxo.outpoint coins before.utxos)
  scanned : after.scanned = before.scanned

theorem Picks.refl (wallet : Wallet) (coins : List Utxo) : Picks wallet wallet coins :=
  ⟨List.Perm.refl _, rfl⟩

structure Scans (lib : Btclib) (before after : Wallet) (coins : List Utxo) (tx : Tx) : Prop where
  cached : ∀ coin ∈ coins, coin ∈ before.utxos
  different : coins.Nodup
  spends : tx.spends = coins.map Utxo.outpoint
  utxos : after.utxos.Perm
    (without Utxo.outpoint coins before.utxos ++ Wallet.newUtxos lib tx)
  scanned : after.scanned = insert (lib.txId tx) before.scanned

section Sends

variable {lib : Btclib} {before after : Wallet} {coins : List Utxo} {tx : Tx} {ledger : Ledger}

theorem Picks.scans {middle : Wallet} (picks : Picks before middle coins)
    (cached : ∀ coin ∈ coins, coin ∈ before.utxos) (different : coins.Nodup)
    (spends : tx.spends = coins.map Utxo.outpoint) :
    Scans lib before (middle.scanTx lib tx) coins tx where
  cached := cached
  different := different
  spends := spends
  utxos := by
    have left : (middle.scanTx lib tx).utxos =
        without Utxo.outpoint coins middle.utxos ++ Wallet.newUtxos lib tx := by
      unfold Wallet.scanTx Wallet.forget
      rw [spends]
      rfl
    rw [left]
    exact picks.utxos.append_right _
  scanned := by
    have same := picks.scanned
    unfold Wallet.scanTx Wallet.forget
    rw [same]

theorem Scans.balance (scans : Scans lib before after coins tx)
    (distinct : before.outpoints.Nodup) :
    after.getBalance = before.getBalance - (totalOf coins - tx.total) - awayOf lib tx := by
  have left := sum_without distinct scans.different scans.cached Utxo.value
  have values := (scans.utxos.map Utxo.value).sum_eq
  have new := @newUtxos_total lib tx
  rw [List.map_append, List.sum_append, left] at values
  unfold Wallet.getBalance
  unfold totalOf at new ⊢
  omega

/-- The books keep a transaction that spends coins of the cache and that the node has not
taken before. -/
theorem Balanced.scans (balanced : Balanced lib before ledger)
    (scans : Scans lib before after coins tx) (new : lib.txId tx ∉ ledger.ids lib)
    {more : Ledger} (blocks : more.blocks = ledger.blocks)
    (sent : more.sent = ledger.sent ++ [⟨coins, tx⟩])
    (paid : more.paid.sum = ledger.paid.sum + awayOf lib tx) : Balanced lib after more := by
  have backs {coin : Utxo} (backs : ledger.Backs lib coin) : more.Backs lib coin :=
    backs.mono (fun _ among => blocks ▸ among) (fun _ among => sent ▸ List.mem_append_left _ among)
  have among {coin : Utxo} (member : coin ∈ after.utxos) :
      coin ∈ before.utxos ∧ coin.outpoint ∉ tx.spends ∨ coin ∈ Wallet.newUtxos lib tx := by
    rcases List.mem_append.mp (scans.utxos.mem_iff.mp member) with old | paidNow
    · obtain ⟨cached, unspent⟩ := List.mem_filter.mp old
      exact .inl ⟨cached, scans.spends ▸ of_decide_eq_true unspent⟩
    · exact .inr paidNow
  -- a coin paid now is none of those the books back
  have apart {old paidNow : Utxo} (backed : ledger.Backs lib old)
      (isNew : paidNow ∈ Wallet.newUtxos lib tx) : old.outpoint ≠ paidNow.outpoint := by
    intro same
    have known := backed.mem_ids
    rw [same, Wallet.newUtxos_txId isNew] at known
    exact new known
  refine ⟨?_, ?_, ?_, ?_, ?_, ?_⟩
  · have kept : ((without Utxo.outpoint coins before.utxos).map Utxo.outpoint).Nodup :=
      balanced.distinct.sublist (List.filter_sublist.map _)
    have both := List.Nodup.append kept (Wallet.newUtxos_nodup lib tx) fun outpoint old paidNow => by
      obtain ⟨coin, member, rfl⟩ := List.mem_map.mp old
      obtain ⟨other, isNew, same⟩ := List.mem_map.mp paidNow
      exact apart (balanced.backed coin (List.mem_of_mem_filter member)) isNew same.symm
    rw [← List.map_append] at both
    exact (scans.utxos.map Utxo.outpoint).nodup_iff.mpr both
  · intro coin member
    rcases among member with ⟨cached, -⟩ | paidNow
    · exact backs (balanced.backed coin cached)
    · exact .inr ⟨⟨coins, tx⟩, sent ▸ List.mem_append_right _ (List.mem_singleton_self _), coin,
        paidNow, rfl, rfl⟩
  · intro spending member
    rw [sent] at member
    rcases List.mem_append.mp member with earlier | last
    · obtain ⟨spends, backed⟩ := balanced.honest spending earlier
      exact ⟨spends, fun coin isSpent => backs (backed coin isSpent)⟩
    · rw [List.mem_singleton.mp last]
      exact ⟨scans.spends, fun coin isSpent => backs (balanced.backed coin (scans.cached coin isSpent))⟩
  · intro spending member coin cached spent
    rw [sent] at member
    rcases List.mem_append.mp member with earlier | last
    · obtain ⟨spends, backed⟩ := balanced.honest spending earlier
      rcases among cached with ⟨old, -⟩ | paidNow
      · exact balanced.unspent spending earlier coin old spent
      · rw [spends] at spent
        obtain ⟨other, isSpent, same⟩ := List.mem_map.mp spent
        exact apart (backed other isSpent) paidNow same
    · rw [List.mem_singleton.mp last] at spent
      rcases among cached with ⟨-, unspent⟩ | paidNow
      · exact unspent spent
      · rw [scans.spends] at spent
        obtain ⟨other, isSpent, same⟩ := List.mem_map.mp spent
        exact apart (balanced.backed other (scans.cached other isSpent)) paidNow same
  · intro spending member
    rw [sent] at member
    rw [scans.scanned, Finset.mem_insert]
    rcases List.mem_append.mp member with earlier | last
    · exact .inr (balanced.scanned spending earlier)
    · rw [List.mem_singleton.mp last]
      exact .inl rfl
  · have balance := scans.balance balanced.distinct
    have booked := balanced.balance
    unfold Ledger.balance at booked ⊢
    rw [blocks, sent, paid, List.map_append, List.sum_append, balance, booked]
    simp only [List.map_cons, List.map_nil, List.sum_cons, List.sum_nil, Ledger.feeOf]
    omega

end Sends

/-! ## The calls -/

namespace Session

variable {ω : Type} {lib : Btclib} {env : Environment ω} {session reached : Session ω}
  {ledger : Ledger} {confirmedOnly : Bool} {coin : Utxo} {tx : Tx}

theorem picked_picks (isPicked : session.wallet.picked confirmedOnly = some coin) :
    ∃ middle, getUtxo none none true confirmedOnly session = (.ok coin, middle) ∧
      Picks session.wallet middle.wallet [coin] ∧ coin ∈ session.wallet.utxos := by
  have cached := (sorted_perm session.wallet).mem_iff.mp (picked_cached isPicked)
  refine ⟨_, getUtxo_picks isPicked, ⟨?_, rfl⟩, cached⟩
  exact (without_erase (List.mem_singleton_self coin) _).trans
    (without_perm (sorted_perm session.wallet))

theorem pickCoin_picks {named : Option Utxo}
    (spends : session.wallet.Spends confirmedOnly coin named) :
    ∃ middle, pickCoin confirmedOnly named session = (.ok coin, middle) ∧
      Picks session.wallet middle.wallet [coin] ∧ coin ∈ session.wallet.utxos := by
  cases named with
  | some utxo =>
      obtain ⟨rfl, cached⟩ := spends
      exact ⟨session, rfl, .refl _ _, cached⟩
  | none => exact picked_picks spends

theorem pickCoins_picks {coins : List Utxo} {named : Option (List Utxo)}
    (spends : session.wallet.SpendsAll confirmedOnly coins named) :
    ∃ middle, pickCoins confirmedOnly named session = (.ok coins, middle) ∧
      Picks session.wallet middle.wallet coins ∧ coins.Nodup ∧
        ∀ coin ∈ coins, coin ∈ session.wallet.utxos := by
  cases named with
  | some utxos =>
      obtain ⟨rfl, different, cached⟩ := spends
      exact ⟨session, rfl, .refl _ _, different, cached⟩
  | none =>
      obtain ⟨coin, rfl, isPicked⟩ := spends
      obtain ⟨middle, run, picks, cached⟩ := picked_picks isPicked
      refine ⟨middle, Action.bind_of_ok _ run, picks, List.nodup_singleton coin, ?_⟩
      intro other member
      rw [List.mem_singleton.mp member]
      exact cached

theorem send_ok {value : Tx} (run : send lib env tx session = (.ok value, reached)) :
    value = tx ∧ reached.wallet = session.wallet.scanTx lib tx := by
  have sent := send_sent lib env tx session
  rw [run] at sent
  cases sent with
  | scanned serialized answered isId => exact ⟨rfl, rfl⟩

theorem orThrow_ok {σ α : Type} {result : Except WalletRaised α} {state final : σ} {value : α}
    (run : orThrow result state = (.ok value, final)) : result = .ok value ∧ final = state := by
  cases result with
  | error error => cases run
  | ok made =>
      cases run
      exact ⟨rfl, rfl⟩

/-- What a call that sends one transaction of its coins leaves. -/
theorem balanced_send (balanced : Balanced lib session.wallet ledger) {coins : List Utxo}
    {middle : Session ω} {value : Tx} (picks : Picks session.wallet middle.wallet coins)
    (cached : ∀ coin ∈ coins, coin ∈ session.wallet.utxos) (different : coins.Nodup)
    (spends : tx.spends = coins.map Utxo.outpoint)
    (sent : send lib env tx middle = (.ok value, reached)) (new : lib.txId tx ∉ ledger.ids lib)
    {more : Ledger} (blocks : more.blocks = ledger.blocks)
    (booked : more.sent = ledger.sent ++ [⟨coins, tx⟩])
    (paid : more.paid.sum = ledger.paid.sum + awayOf lib tx) :
    Balanced lib reached.wallet more := by
  rw [(send_ok sent).2]
  exact balanced.scans (picks.scans cached different spends) new blocks booked paid

theorem balanced_transfer (balanced : Balanced lib session.wallet ledger) {options : SelfTransfer}
    (spends : session.wallet.Spends options.confirmedOnly coin options.utxoToSpend)
    (returned : sendSelfTransfer lib env options session = (.ok tx, reached))
    (once : ledger.TakesOnce lib [lib.txId tx]) :
    Balanced lib reached.wallet (ledger.send [coin] tx) := by
  obtain ⟨middle, picked, picks, cached⟩ := pickCoin_picks spends
  obtain ⟨made, built, builtRun, sent⟩ := Action.bind_ok_iff.mp returned
  unfold createSelfTransfer at builtRun
  split at builtRun
  · cases builtRun
  · rw [Action.bind_of_ok _ picked] at builtRun
    obtain ⟨make, rfl⟩ := orThrow_ok builtRun
    obtain ⟨spends, value, padding, isPadding, vout⟩ := selfTransferOf_ok make
    obtain ⟨rfl, -⟩ := send_ok sent
    have away := @awayOf_padded _ _ 1 _ _ isPadding vout
    refine balanced_send balanced picks ?_ (List.nodup_singleton coin) spends sent
      (once.2 _ List.mem_cons_self) rfl rfl ?_
    · intro other member
      rw [List.mem_singleton.mp member]
      exact cached
    · rw [away, Int.add_zero]
      rfl

theorem balanced_multi (balanced : Balanced lib session.wallet ledger) {options : SelfTransferMulti}
    {coins : List Utxo}
    (spends : session.wallet.SpendsAll options.confirmedOnly coins options.utxosToSpend)
    (returned : sendSelfTransferMulti lib env options session = (.ok tx, reached))
    (once : ledger.TakesOnce lib [lib.txId tx]) :
    Balanced lib reached.wallet (ledger.send coins tx) := by
  obtain ⟨middle, picked, picks, different, cached⟩ := pickCoins_picks spends
  obtain ⟨made, built, builtRun, sent⟩ := Action.bind_ok_iff.mp returned
  unfold createSelfTransferMulti at builtRun
  rw [Action.bind_of_ok _ picked] at builtRun
  obtain ⟨make, rfl⟩ := orThrow_ok builtRun
  obtain ⟨rfl, -⟩ := send_ok sent
  rw [selfTransferMultiOf_eq] at make
  split at make
  · cases make
  split at make
  · cases make
  obtain ⟨spends, padding, isPadding, vout⟩ := built_ok make
  have away := awayOf_padded isPadding vout
  refine balanced_send balanced picks cached different spends sent (once.2 _ List.mem_cons_self) rfl
    rfl ?_
  rw [away, Int.add_zero]
  rfl

theorem balanced_sendTo (balanced : Balanced lib session.wallet ledger)
    {scriptPubKey : List Octet} {value : Int}
    (spends : session.wallet.Spends false coin none)
    (returned : sendTo lib env scriptPubKey value session = (.ok tx, reached))
    (once : ledger.TakesOnce lib [lib.txId tx]) :
    Balanced lib reached.wallet ((ledger.send [coin] tx).pay lib scriptPubKey value) := by
  obtain ⟨middle, picked, picks, cached⟩ := picked_picks spends
  unfold sendTo at returned
  rw [Action.bind_of_ok _ picked] at returned
  obtain ⟨made, built, builtRun, sent⟩ := Action.bind_ok_iff.mp returned
  obtain ⟨make, rfl⟩ := orThrow_ok builtRun
  obtain ⟨spends, vout⟩ := sendToOf_ok make
  obtain ⟨rfl, -⟩ := send_ok sent
  refine balanced_send balanced picks ?_ (List.nodup_singleton coin) spends sent
    (once.2 _ List.mem_cons_self) (Ledger.pay_blocks ..) (Ledger.pay_sent ..) ?_
  · intro other member
    rw [List.mem_singleton.mp member]
    exact cached
  · rw [Ledger.pay_paid_sum, awayOf_sendTo vout]
    rfl

/-! ## Chains -/

theorem chainOf_succ {count : Nat} {chain : List Tx} (made : chainOf lib (count + 1) coin = .ok chain) :
    ∃ tx next rest, chain = tx :: rest ∧ selfTransferOf lib .default coin = .ok tx ∧
      (Wallet.newUtxos lib tx).head? = some next ∧ chainOf lib count next = .ok rest := by
  unfold chainOf at made
  obtain ⟨tx, link, rest⟩ := Action.result_bind_ok made
  have paid := selfTransferOf_default link
  rw [paid] at rest
  obtain ⟨later, links, last⟩ := Action.result_bind_ok rest
  cases last
  exact ⟨tx, _, later, rfl, link, paid, links⟩

theorem takesOnce_cons (coins : List Utxo) {rest : List Tx}
    (once : ledger.TakesOnce lib ((tx :: rest).map lib.txId)) :
    lib.txId tx ∉ ledger.ids lib ∧ (ledger.send coins tx).TakesOnce lib (rest.map lib.txId) := by
  obtain ⟨distinct, new⟩ := once
  obtain ⟨first, others⟩ := List.nodup_cons.mp distinct
  refine ⟨new _ List.mem_cons_self, others, fun id member known => ?_⟩
  have ids : (ledger.send coins tx).ids lib = ledger.ids lib ++ [lib.txId tx] := by
    unfold Ledger.ids Ledger.send
    rw [List.map_append, List.append_assoc]
    rfl
  rw [ids] at known
  rcases List.mem_append.mp known with before | isFirst
  · exact new id (List.mem_cons_of_mem _ member) before
  · exact first (List.mem_singleton.mp isFirst ▸ member)

/-- The link that spends `coin` sent: the coin the next one spends is cached. -/
theorem balanced_link {before : Wallet} {next : Utxo} {rest : List Tx}
    (balanced : Balanced lib before ledger) (cached : coin ∈ before.utxos)
    (picks : Picks before session.wallet [coin])
    (made : selfTransferOf lib .default coin = .ok tx)
    (paid : (Wallet.newUtxos lib tx).head? = some next) (new : lib.txId tx ∉ ledger.ids lib)
    (run : sendEach lib env (tx :: rest) session = (.ok (), reached)) :
    ∃ middle : Session ω, sendEach lib env rest middle = (.ok (), reached) ∧
      Balanced lib middle.wallet (ledger.send [coin] tx) ∧ next ∈ middle.wallet.utxos := by
  obtain ⟨value, middle, sent, later⟩ := Action.bind_ok_iff.mp run
  obtain ⟨spends, value, padding, isPadding, vout⟩ := selfTransferOf_ok made
  have scans : Scans lib before middle.wallet [coin] tx := by
    rw [(send_ok sent).2]
    exact picks.scans (by simpa using cached) (List.nodup_singleton coin) spends
  refine ⟨middle, later, balanced.scans scans new rfl rfl ?_, ?_⟩
  · rw [@awayOf_padded _ _ 1 _ _ isPadding vout, Int.add_zero]
    rfl
  · exact scans.utxos.mem_iff.mpr (List.mem_append_right _ (List.mem_of_mem_head? paid))

/-- A chain sent, its first coin cached or taken for it: each link spends a coin the one
before it left in the cache. -/
theorem balanced_chain (count : Nat) : ∀ {before : Wallet} {session reached : Session ω}
    {ledger : Ledger} {coin : Utxo} {chain : List Tx}, Balanced lib before ledger →
    coin ∈ before.utxos → Picks before session.wallet [coin] →
    chainOf lib (count + 1) coin = .ok chain → ledger.TakesOnce lib (chain.map lib.txId) →
    sendEach lib env chain session = (.ok (), reached) →
    Balanced lib reached.wallet (ledger.sendChain lib coin chain) := by
  induction count with
  | zero =>
      intro before session reached ledger coin chain balanced cached picks made once run
      obtain ⟨tx, next, rest, rfl, link, paid, later⟩ := chainOf_succ made
      cases later
      obtain ⟨middle, last, balanced, -⟩ :=
        balanced_link balanced cached picks link paid (takesOnce_cons [coin] once).1 run
      cases last
      rw [Ledger.sendChain, paid]
      exact balanced
  | succ count ih =>
      intro before session reached ledger coin chain balanced cached picks made once run
      obtain ⟨tx, next, rest, rfl, link, paid, later⟩ := chainOf_succ made
      obtain ⟨new, onceLater⟩ := takesOnce_cons [coin] once
      obtain ⟨middle, last, balanced, nextCached⟩ :=
        balanced_link balanced cached picks link paid new run
      rw [Ledger.sendChain, paid]
      exact ih balanced nextCached (Picks.refl _ _) later onceLater last

/-- The chain is made of the coin the call spends, the cache losing that coin at most. -/
theorem createSelfTransferChain_picks {chainLength : Int} (positive : 0 < chainLength)
    {utxoToSpend : Option Utxo} {chain : List Tx} {built : Session ω}
    (spends : session.wallet.Spends false coin utxoToSpend)
    (run : createSelfTransferChain lib chainLength utxoToSpend session = (.ok chain, built)) :
    ∃ count, chainOf lib (count + 1) coin = .ok chain ∧
      Picks session.wallet built.wallet [coin] ∧ coin ∈ session.wallet.utxos := by
  unfold createSelfTransferChain at run
  obtain ⟨count, length⟩ : ∃ count, chainLength.toNat = count + 1 :=
    ⟨chainLength.toNat - 1, by omega⟩
  rw [length] at run
  refine ⟨count, ?_⟩
  cases utxoToSpend with
  | some named =>
      obtain ⟨rfl, cached⟩ := spends
      rw [createChainFrom_named] at run
      obtain ⟨made, rfl⟩ := Prod.mk.inj run
      exact ⟨made, .refl _ _, cached⟩
  | none =>
      obtain ⟨middle, picked, picks, cached⟩ := picked_picks spends
      rw [createChainFrom_picks, Action.bind_of_ok _ picked] at run
      obtain ⟨made, rfl⟩ := orThrow_ok run
      exact ⟨made, picks, cached⟩

theorem balanced_sendChain (balanced : Balanced lib session.wallet ledger) {chainLength : Int}
    {utxoToSpend : Option Utxo} {chain : List Tx}
    (spends : 0 < chainLength → session.wallet.Spends false coin utxoToSpend)
    (returned : sendSelfTransferChain lib env chainLength utxoToSpend session =
      (.ok chain, reached))
    (once : ledger.TakesOnce lib (chain.map lib.txId)) :
    Balanced lib reached.wallet (ledger.sendChain lib coin chain) := by
  obtain ⟨made, built, buildRun, rest⟩ := Action.bind_ok_iff.mp returned
  obtain ⟨done, final, sent, last⟩ := Action.bind_ok_iff.mp rest
  cases last
  by_cases positive : 0 < chainLength
  · obtain ⟨count, links, picks, cached⟩ :=
      createSelfTransferChain_picks positive (spends positive) buildRun
    exact balanced_chain count balanced cached picks links once sent
  · have length : chainLength.toNat = 0 := by omega
    unfold createSelfTransferChain at buildRun
    rw [length] at buildRun
    cases buildRun
    cases sent
    exact balanced

/-! ## Blocks -/

/-- A block of transactions the books have changes no coin but its height. -/
theorem scanConfirmed_booked (confirm : List Tx) {wallet : Wallet}
    (known : ∀ tx ∈ confirm, lib.txId tx ∈ wallet.scanned)
    (unspent : ∀ tx ∈ confirm, ∀ coin ∈ wallet.utxos, coin.outpoint ∉ tx.spends) :
    wallet.scanConfirmed lib confirm = ([], wallet) := by
  induction confirm with
  | nil => rfl
  | cons tx rest ih =>
      have same : wallet.forget tx.spends = wallet := by
        have kept : wallet.utxos.filter (fun utxo => utxo.outpoint ∉ tx.spends) = wallet.utxos :=
          List.filter_eq_self.mpr fun coin cached =>
            decide_eq_true (unspent tx List.mem_cons_self coin cached)
        unfold Wallet.forget
        rw [kept]
      rw [Wallet.scanConfirmed, if_pos (known tx List.mem_cons_self), same]
      exact ih (fun other member => known other (List.mem_cons_of_mem _ member))
        (fun other member => unspent other (List.mem_cons_of_mem _ member))

theorem coinbases_total {accepted : List Mined}
    (coins : ∀ mined ∈ accepted, ∃ paid, coinOf lib mined = some paid) :
    totalOf (accepted.filterMap (coinOf lib)) =
      (accepted.map fun mined => lib.subsidy mined.height REGTEST_SUBSIDY_HALVING_INTERVAL).sum := by
  induction accepted with
  | nil => rfl
  | cons mined rest ih =>
      obtain ⟨paid, found⟩ := coins mined List.mem_cons_self
      have later := ih fun other member => coins other (List.mem_cons_of_mem _ member)
      have value : paid.value = lib.subsidy mined.height REGTEST_SUBSIDY_HALVING_INTERVAL := by
        obtain ⟨coinbase, -, rfl⟩ := Option.map_eq_some_iff.mp found
        rfl
      rw [List.filterMap_cons_some found, List.map_cons, List.sum_cons, ← later, ← value]
      rfl

/-- The books keep blocks whose coinbases the node has not taken before, old coins changing
in no more than their heights. -/
theorem balanced_mines {before after : Wallet} (balanced : Balanced lib before ledger)
    {mined : List Mined} {confirmed : Utxo → Utxo}
    (outpoint : ∀ coin, (confirmed coin).outpoint = coin.outpoint)
    (value : ∀ coin, (confirmed coin).value = coin.value)
    (utxos : after.utxos = before.utxos.map confirmed ++ mined.filterMap (coinOf lib))
    (scanned : after.scanned = before.scanned)
    (coins : ∀ block ∈ mined, ∃ paid, coinOf lib block = some paid)
    (once : ledger.TakesOnce lib
      ((mined.filterMap (coinOf lib)).map fun coin => coin.outpoint.txId)) :
    Balanced lib after (ledger.mine mined) := by
  have backs {coin : Utxo} (backs : ledger.Backs lib coin) : (ledger.mine mined).Backs lib coin :=
    backs.mono (fun _ among => List.mem_append_left _ among) fun _ among => among
  have outpoints : after.outpoints =
      before.outpoints ++ (mined.filterMap (coinOf lib)).map Utxo.outpoint := by
    unfold Wallet.outpoints
    rw [utxos, List.map_append, List.map_map]
    congr 2
    exact funext outpoint
  have apart {old paidNow : Utxo} (backed : ledger.Backs lib old)
      (isNew : paidNow ∈ mined.filterMap (coinOf lib)) : old.outpoint ≠ paidNow.outpoint := by
    intro same
    have known := backed.mem_ids
    rw [same] at known
    exact once.2 _ (List.mem_map_of_mem isNew) known
  refine ⟨?_, ?_, ?_, ?_, ?_, ?_⟩
  · rw [outpoints]
    have different : ((mined.filterMap (coinOf lib)).map Utxo.outpoint).Nodup := by
      have ids : (((mined.filterMap (coinOf lib)).map Utxo.outpoint).map OutPoint.txId).Nodup := by
        rw [List.map_map]
        exact once.1
      exact ids.of_map
    refine List.Nodup.append balanced.distinct different fun place old paidNow => ?_
    obtain ⟨coin, member, rfl⟩ := List.mem_map.mp old
    obtain ⟨other, isNew, same⟩ := List.mem_map.mp paidNow
    exact apart (balanced.backed coin member) isNew same.symm
  · intro coin member
    rw [utxos] at member
    rcases List.mem_append.mp member with old | paidNow
    · obtain ⟨former, cached, rfl⟩ := List.mem_map.mp old
      exact (backs (balanced.backed former cached)).congr (outpoint former) (value former)
    · obtain ⟨block, among, found⟩ := List.mem_filterMap.mp paidNow
      exact .inl ⟨block, List.mem_append_right _ among, coin, found, rfl, rfl⟩
  · intro spending member
    obtain ⟨spends, backed⟩ := balanced.honest spending member
    exact ⟨spends, fun coin isSpent => backs (backed coin isSpent)⟩
  · intro spending member coin cached spent
    rw [utxos] at cached
    rcases List.mem_append.mp cached with old | paidNow
    · obtain ⟨former, before, rfl⟩ := List.mem_map.mp old
      rw [outpoint former] at spent
      exact balanced.unspent spending member former before spent
    · obtain ⟨spends, backed⟩ := balanced.honest spending member
      rw [spends] at spent
      obtain ⟨other, isSpent, same⟩ := List.mem_map.mp spent
      exact apart (backed other isSpent) paidNow same
  · rw [scanned]
    exact balanced.scanned
  · have worth := coinbases_total coins
    have booked := balanced.balance
    unfold totalOf at worth
    unfold Wallet.getBalance Ledger.balance at booked ⊢
    have same : Utxo.value ∘ confirmed = Utxo.value := funext value
    rw [utxos, List.map_append, List.map_map, same, List.sum_append, booked, worth]
    simp only [Ledger.mine, List.map_append, List.sum_append]
    omega

theorem balanced_generate (balanced : Balanced lib session.wallet ledger) (laws : BlockLaws lib)
    {count : Int} {confirm : List Tx}
    (sent : ∀ tx ∈ confirm, tx ∈ ledger.sent.map Spending.tx)
    (after : (generate lib env count confirm session).2 = reached)
    (once : ledger.TakesOnce lib
      (((newlyAccepted session reached).filterMap (coinOf lib)).map fun coin =>
        coin.outpoint.txId)) :
    Balanced lib reached.wallet (ledger.mine (newlyAccepted session reached)) := by
  have nothing : scanOf lib confirm session = ([], session.wallet) := by
    apply scanConfirmed_booked
    · intro tx member
      obtain ⟨spending, among, rfl⟩ := List.mem_map.mp (sent tx member)
      exact balanced.scanned spending among
    · intro tx member
      obtain ⟨spending, among, rfl⟩ := List.mem_map.mp (sent tx member)
      exact balanced.unspent spending among
  have ends := (generateLoop_ends env laws count.toNat confirm session).1
  unfold generate at after
  rw [after] at ends
  cases ends with
  | unaccepted sameAccepted sameWallet none =>
      have noBlocks : newlyAccepted session reached = [] := by
        rw [newlyAccepted, sameAccepted, List.drop_length]
      rw [noBlocks, sameWallet]
      unfold Ledger.mine
      rw [List.append_nil]
      exact balanced
  | unread positive submitted added failed accepted scanned =>
      rw [nothing] at added
      exact absurd rfl added
  | @recorded mined rest world later wallet submitted read accepted recorded coins =>
      have blocks : newlyAccepted session reached = mined :: rest := by
        rw [newlyAccepted, accepted, List.drop_left]
      have confirmed : wallet =
          session.wallet.confirmAt lib (session.wallet.height + 1) confirm := by
        cases read with
        | unneeded _ => rw [afterScan, nothing]
        | read added _ =>
            rw [nothing] at added
            exact absurd rfl added
      rw [blocks] at once ⊢
      refine balanced_mines balanced
        (@Wallet.confirmedTo_outpoint lib confirm (session.wallet.height + 1)) ?_ ?_ ?_ coins once
      · intro coin
        unfold Wallet.confirmedTo
        split
        · rfl
        · rfl
      · rw [recorded, recordAll_utxos, confirmed]
        rfl
      · rw [recorded, recordAll_scanned, confirmed]
        rfl

theorem balanced_empty {wallet : Wallet} (utxos : wallet.utxos = []) :
    Balanced lib wallet .empty := by
  refine ⟨?_, ?_, List.forall_mem_nil _, List.forall_mem_nil _, List.forall_mem_nil _, ?_⟩
  · rw [Wallet.outpoints, utxos]
    exact List.nodup_nil
  · rw [utxos]
    exact List.forall_mem_nil _
  · rw [Wallet.getBalance, utxos]
    rfl

theorem Books.balanced (laws : BlockLaws lib) (books : Books lib env session ledger) :
    Balanced lib session.wallet ledger := by
  induction books with
  | constructed built => exact balanced_empty (construct_utxos built)
  | moved world _ ih => exact ih
  | generated _ sent returned once ih =>
      exact balanced_generate ih laws sent (congrArg Prod.snd returned) once
  | sentTransfer _ spends returned once ih => exact balanced_transfer ih spends returned once
  | sentMulti _ spends returned once ih => exact balanced_multi ih spends returned once
  | sentChain _ spends returned once ih => exact balanced_sendChain ih spends returned once
  | sentTo _ spends returned once ih => exact balanced_sendTo ih spends returned once

/-- In every run of calls that return, each spending coins of the cache, against a node that
takes every transaction once, the balance is the subsidies of the blocks mined less the fees
of the transactions sent and less what was paid to others; the inputs of each transaction
name the coins its fee counts, which earlier blocks and transactions paid. -/
theorem books_balance (laws : BlockLaws lib) (books : Books lib env session ledger) :
    session.wallet.getBalance = ledger.balance lib ∧
      ∀ spending ∈ ledger.sent, ledger.Honest lib spending :=
  ⟨(books.balanced laws).balance, (books.balanced laws).honest⟩

def sendFirst : SelfTransfer :=
  { SelfTransfer.default with fee := 1000, utxoToSpend := some firstCoin }

def firstSpend : Tx where
  version := 2
  lockTime := 0
  vin := [⟨firstCoin.outpoint, [], 0, PlainLib.lib.witness⟩]
  vout := [⟨4999999000, PlainLib.lib.anyoneCanSpend⟩]

theorem echo_mines :
    ∃ hashes, generate PlainLib.lib echo 1 [] ⟨echoWallet, (), [], []⟩ = (.ok hashes, mineOnEcho 1) :=
  ⟨_, rfl⟩

set_option maxRecDepth 100000 in
theorem echo_sends :
    sendSelfTransfer PlainLib.lib echo sendFirst (mineOnEcho 1) = (.ok firstSpend,
      (sendSelfTransfer PlainLib.lib echo sendFirst (mineOnEcho 1)).2) := rfl

theorem books_balance_echo :
    (sendSelfTransfer PlainLib.lib echo sendFirst (mineOnEcho 1)).2.wallet.getBalance =
        ((Ledger.empty.mine (mineOnEcho 1).accepted).send [firstCoin] firstSpend).balance
          PlainLib.lib ∧
      ∀ spending ∈ ((Ledger.empty.mine (mineOnEcho 1).accepted).send [firstCoin] firstSpend).sent,
        ((Ledger.empty.mine (mineOnEcho 1).accepted).send [firstCoin] firstSpend).Honest
          PlainLib.lib spending := by
  obtain ⟨hashes, returned⟩ := echo_mines
  have mined : Books PlainLib.lib echo (mineOnEcho 1) (Ledger.empty.mine (mineOnEcho 1).accepted) :=
    .generated (.constructed echo_construct) (fun _ none => absurd none List.not_mem_nil) returned
      ⟨by decide, fun _ _ => List.not_mem_nil⟩
  apply books_balance PlainLib.blockLaws
  have spends : (mineOnEcho 1).wallet.Spends sendFirst.confirmedOnly firstCoin
      sendFirst.utxoToSpend := ⟨rfl, by decide⟩
  exact .sentTransfer mined spends echo_sends ⟨List.nodup_singleton _, by decide +kernel⟩

end Session

end BitcoinNodeTests
