import BitcoinNodeTests.MiniWallet.Asked
import BitcoinNodeTests.MiniWallet.Distinct
import BitcoinNodeTests.MiniWallet.Taken

/-!
# The cache beside the node

The cache simulates the node: it holds, each once, the coins the node holds for the wallet of
the transactions the wallet has seen, less those its calls took.  Each way a transaction can
reach the node, through the wallet or past it, keeps that.
-/

set_option autoImplicit false

namespace BitcoinNodeTests

open Foundation Wallet

namespace Session

/-- The wallet scanned the transaction, or mined it as the coinbase of a block. -/
def Seen {ω : Type} (lib : Btclib) (session : Session ω) (txId : List Octet) : Prop :=
  txId ∈ session.wallet.scanned ∨
    txId ∈ (coinbaseOutpoints lib session.accepted).map OutPoint.txId

/-- The wallet stands where the node does and has seen the transactions of `seen`; its cache is,
each once, the coins the node holds of those that are not `taken`. -/
structure Simulates (lib : Btclib) (session : Session ChainWorld) (seen : List (List Octet))
    (taken : List OutPoint) : Prop where
  tip : session.wallet.tip = session.world.node.tip lib
  height : session.wallet.height = session.world.node.height
  sees : ∀ txId, session.Seen lib txId ↔ txId ∈ seen
  distinct : session.wallet.outpoints.Nodup
  coins : ∀ utxo, utxo ∈ session.wallet.utxos ↔ session.world.node.Holds lib utxo ∧
    utxo.outpoint.txId ∈ seen ∧ utxo.outpoint ∉ taken

/-- The cache beside what the wallet has seen, whatever that is. -/
structure Caches (lib : Btclib) (session : Session ChainWorld) (taken : List OutPoint) : Prop where
  tip : session.wallet.tip = session.world.node.tip lib
  height : session.wallet.height = session.world.node.height
  distinct : session.wallet.outpoints.Nodup
  coins : ∀ utxo, utxo ∈ session.wallet.utxos ↔ session.world.node.Holds lib utxo ∧
    session.Seen lib utxo.outpoint.txId ∧ utxo.outpoint ∉ taken

/-- The simulation within a call, with what carries it: the node is valid, knows every
transaction that the wallet has seen, and no other coins were taken.  What the wallet has seen
is what it had when the node was `start`, and what has joined the node since. -/
structure Tracks (lib : Btclib) (rules : NodeRules) (start : ChainNode)
    (seen : List (List Octet)) (session : Session ChainWorld) (taken : List OutPoint) : Prop where
  valid : session.world.node.Valid lib rules
  caches : Caches lib session taken
  scanned : ∀ txId ∈ session.wallet.scanned, txId ∈ session.world.node.transactions.map lib.txId
  mined : ∀ txId ∈ (coinbaseOutpoints lib session.accepted).map OutPoint.txId,
    txId ∈ session.world.node.confirmed.map lib.txId
  taken : ∀ outpoint ∈ taken, session.Seen lib outpoint.txId
  grown : ChainNode.Grown lib start session.world.node
  joined : ∀ txId, session.Seen lib txId ↔
    txId ∈ seen ∨ txId ∈ ChainNode.joined lib start session.world.node

variable {lib : Btclib} {rules : NodeRules} {start : ChainNode} {seen : List (List Octet)}
  {session reached : Session ChainWorld} {taken : List OutPoint} {tx : Tx}

theorem Tracks.seen_known (tracks : Tracks lib rules start seen session taken)
    {txId : List Octet} (isSeen : session.Seen lib txId) :
    txId ∈ session.world.node.transactions.map lib.txId := by
  rcases isSeen with scanned | mined
  · exact tracks.scanned txId scanned
  · unfold ChainNode.transactions
    rw [List.map_append]
    exact List.mem_append_left _ (tracks.mined txId mined)

/-- A coin at an outpoint that no transaction the node knows pays was never taken. -/
theorem Tracks.untaken (tracks : Tracks lib rules start seen session taken) {outpoint : OutPoint}
    (unknown : outpoint.txId ∉ session.world.node.transactions.map lib.txId) :
    outpoint ∉ taken := fun isTaken => unknown (tracks.seen_known (tracks.taken outpoint isTaken))

/-- What matters of a session is its node, its wallet but for the last time, and the blocks
the node accepted. -/
theorem Tracks.congr (tracks : Tracks lib rules start seen session taken)
    (node : reached.world.node = session.world.node)
    (tip : reached.wallet.tip = session.wallet.tip)
    (height : reached.wallet.height = session.wallet.height)
    (utxos : reached.wallet.utxos = session.wallet.utxos)
    (scanned : reached.wallet.scanned = session.wallet.scanned)
    (accepted : reached.accepted = session.accepted) :
    Tracks lib rules start seen reached taken := by
  have sees (txId : List Octet) : reached.Seen lib txId ↔ session.Seen lib txId := by
    unfold Seen
    rw [scanned, accepted]
  have sameOutpoints : reached.wallet.outpoints = session.wallet.outpoints := by
    unfold Wallet.outpoints
    rw [utxos]
  refine ⟨?_, ⟨?_, ?_, ?_, ?_⟩, ?_, ?_, ?_, ?_, ?_⟩
  · rw [node]
    exact tracks.valid
  · rw [node, tip]
    exact tracks.caches.tip
  · rw [node, height]
    exact tracks.caches.height
  · rw [sameOutpoints]
    exact tracks.caches.distinct
  · intro utxo
    rw [utxos, node, sees]
    exact tracks.caches.coins utxo
  · rw [scanned, node]
    exact tracks.scanned
  · rw [accepted, node]
    exact tracks.mined
  · exact fun outpoint isTaken => (sees _).mpr (tracks.taken outpoint isTaken)
  · rw [node]
    exact tracks.grown
  · intro txId
    rw [sees, node]
    exact tracks.joined txId

theorem Tracks.simulates (tracks : Tracks lib rules start seen session taken)
    (still : start = session.world.node) : Simulates lib session seen taken := by
  have sees (txId : List Octet) : session.Seen lib txId ↔ txId ∈ seen := by
    rw [tracks.joined, still, or_iff_left (ChainNode.not_mem_joined_self txId)]
  refine ⟨tracks.caches.tip, tracks.caches.height, sees, tracks.caches.distinct, fun utxo => ?_⟩
  rw [tracks.caches.coins, sees]

theorem Tracks.rebase (tracks : Tracks lib rules start seen session taken) :
    Tracks lib rules session.world.node
      (seen ++ ChainNode.joined lib start session.world.node) session taken := by
  refine ⟨tracks.valid, tracks.caches, tracks.scanned, tracks.mined, tracks.taken, .refl lib _,
    fun txId => ?_⟩
  rw [tracks.joined, List.mem_append, or_iff_left (ChainNode.not_mem_joined_self txId)]

/-! ## Coins taken -/

/-- A call that takes coins: they are cached no more, and the node holds them still. -/
theorem Tracks.takes (tracks : Tracks lib rules start seen session taken)
    {outpoints : List OutPoint} (takes : Takes outpoints session reached) :
    Tracks lib rules start seen reached (taken ++ outpoints) := by
  have distinct := takes.thinner.nodup tracks.caches.distinct
  have coins := takes.coins
  have same := takes.thinner.same
  have sees (txId : List Octet) : reached.Seen lib txId ↔ session.Seen lib txId := by
    rw [same]
    exact Iff.rfl
  refine ⟨?_, ⟨?_, ?_, distinct, ?_⟩, ?_, ?_, ?_, ?_, ?_⟩
  · rw [same]
    exact tracks.valid
  · rw [same]
    exact tracks.caches.tip
  · rw [same]
    exact tracks.caches.height
  · intro utxo
    have node : reached.world.node = session.world.node := by rw [same]
    rw [coins, tracks.caches.coins, node, sees, List.mem_append, not_or, and_assoc, and_assoc]
  · rw [same]
    exact tracks.scanned
  · rw [same]
    exact tracks.mined
  · intro outpoint member
    rw [sees]
    rcases List.mem_append.mp member with before | now
    · exact tracks.taken outpoint before
    · obtain ⟨coin, cached, rfl⟩ := List.mem_map.mp (takes.cached outpoint now)
      exact ((tracks.caches.coins coin).mp cached).2.1
  · rw [same]
    exact tracks.grown
  · intro txId
    have node : reached.world.node = session.world.node := by rw [same]
    rw [sees, node]
    exact tracks.joined txId

/-! ## Transactions broadcast -/

/-- A coin of a transaction new to the node was neither seen nor taken. -/
theorem Tracks.new_coin (tracks : Tracks lib rules start seen session taken) {utxo : Utxo}
    (new : lib.txId tx ∉ session.world.node.transactions.map lib.txId)
    (paid : utxo ∈ newUtxos lib tx) :
    ¬ session.Seen lib utxo.outpoint.txId ∧ utxo.outpoint ∉ taken := by
  rw [← newUtxos_txId paid] at new
  exact ⟨fun isSeen => new (tracks.seen_known isSeen), tracks.untaken new⟩

/-- A transaction of another party, which spends no cached coin, joins the mempool. -/
theorem Tracks.relayed (tracks : Tracks lib rules start seen session taken)
    (laws : ChainLaws lib rules) (still : start = session.world.node)
    {octets : List Octet} (decoded : rules.decodeTx octets = some tx)
    (can : spendable lib session.world.node.transactions tx)
    (apart : ∀ outpoint ∈ tx.spends, outpoint ∉ session.wallet.outpoints) :
    Tracks lib rules (session.world.node.relay tx) seen
      { session with world := { session.world with node := session.world.node.relay tx } }
      taken := by
  have new := spendable_new laws can
  refine ⟨tracks.valid.relay laws can decoded, ⟨tracks.caches.tip, tracks.caches.height,
    tracks.caches.distinct, ?_⟩, ?_, tracks.mined, tracks.taken, .refl lib _, ?_⟩
  · intro utxo
    rw [ChainNode.holds_relay laws tracks.valid can, tracks.caches.coins]
    constructor
    · rintro ⟨holds, isSeen, untaken⟩
      have cached := (tracks.caches.coins utxo).mpr ⟨holds, isSeen, untaken⟩
      exact ⟨.inl ⟨holds, fun spent => apart _ spent (List.mem_map_of_mem cached)⟩, isSeen, untaken⟩
    · rintro ⟨⟨holds, -⟩ | paid, isSeen, untaken⟩
      · exact ⟨holds, isSeen, untaken⟩
      · exact absurd isSeen (tracks.new_coin new paid).1
  · intro txId scanned
    rw [ChainNode.transactions_relay, List.map_append]
    exact List.mem_append_left _ (tracks.scanned txId scanned)
  · intro txId
    have before := tracks.joined txId
    rw [still, or_iff_left (ChainNode.not_mem_joined_self txId)] at before
    exact before.trans (or_iff_left (ChainNode.not_mem_joined_self txId)).symm

theorem Tracks.sent (tracks : Tracks lib rules start seen session taken)
    (laws : ChainLaws lib rules) {octets : List Octet} (decoded : rules.decodeTx octets = some tx)
    (can : spendable lib session.world.node.transactions tx) :
    Tracks lib rules start seen { session with
      wallet := session.wallet.scanTx lib tx
      world := { session.world with node := session.world.node.relay tx } } taken := by
  have new := spendable_new laws can
  have sees (txId : List Octet) :
      (txId ∈ (session.wallet.scanTx lib tx).scanned ∨
        txId ∈ (coinbaseOutpoints lib session.accepted).map OutPoint.txId) ↔
      txId = lib.txId tx ∨ session.Seen lib txId := by
    have scanned : (session.wallet.scanTx lib tx).scanned =
        insert (lib.txId tx) session.wallet.scanned := rfl
    rw [scanned, Finset.mem_insert, or_assoc]
    exact Iff.rfl
  have unseen {utxo : Utxo} (holds : session.world.node.Holds lib utxo) :
      utxo.outpoint.txId ≠ lib.txId tx := fun same => new (same ▸ holds.known)
  have fresh : session.wallet.Fresh lib tx := by
    intro utxo paid cached
    obtain ⟨coin, among, same⟩ := List.mem_map.mp cached
    have holds := ((tracks.caches.coins coin).mp among).1
    exact absurd (same ▸ newUtxos_txId paid) (unseen holds)
  refine ⟨tracks.valid.relay laws can decoded, ⟨tracks.caches.tip, tracks.caches.height,
    scanTx_nodup tracks.caches.distinct fresh, ?_⟩, ?_, tracks.mined, ?_, tracks.grown.relay tx, ?_⟩
  · intro utxo
    have cached : utxo ∈ (session.wallet.scanTx lib tx).utxos ↔
        (utxo ∈ session.wallet.utxos ∧ utxo.outpoint ∉ tx.spends) ∨ utxo ∈ newUtxos lib tx := by
      unfold Wallet.scanTx Wallet.forget
      rw [List.mem_append, List.mem_filter, decide_eq_true_iff]
    unfold Seen
    rw [cached, ChainNode.holds_relay laws tracks.valid can, sees, tracks.caches.coins]
    constructor
    · rintro (⟨⟨holds, isSeen, untaken⟩, unspent⟩ | paid)
      · exact ⟨.inl ⟨holds, unspent⟩, .inr isSeen, untaken⟩
      · exact ⟨.inr paid, .inl (newUtxos_txId paid), (tracks.new_coin new paid).2⟩
    · rintro ⟨⟨holds, unspent⟩ | paid, isSeen, untaken⟩
      · exact .inl ⟨⟨holds, isSeen.resolve_left (unseen holds), untaken⟩, unspent⟩
      · exact .inr paid
  · intro txId scanned
    rw [ChainNode.transactions_relay, List.map_append]
    rcases Finset.mem_insert.mp scanned with rfl | before
    · exact List.mem_append_right _ List.mem_cons_self
    · exact List.mem_append_left _ (tracks.scanned txId before)
  · exact fun outpoint isTaken => (sees _).mpr (.inr (tracks.taken outpoint isTaken))
  · intro txId
    have step := tracks.grown.joined_relay new txId
    have before := tracks.joined txId
    exact (sees txId).trans (by rw [step, before]; tauto)

/-- Whether the node takes it or not, a transaction sent leaves the cache true. -/
theorem Tracks.send (tracks : Tracks lib rules start seen session taken)
    (laws : ChainLaws lib rules) (tx : Tx) :
    Tracks lib rules start seen (send lib (honest lib rules) tx session).2 taken := by
  have sent := send_sent lib (honest lib rules) tx session
  rcases run : Session.send lib (honest lib rules) tx session with ⟨result, reached⟩
  rw [run] at sent
  cases sent with
  | unserialized none => exact tracks
  | refused serialized answered notId =>
      rw [sendRawTransaction_honest laws serialized] at answered
      split at answered
      · cases answered
        exact absurd rfl (notId _ rfl)
      · cases answered
        exact tracks
  | scanned serialized answered isId =>
      rw [sendRawTransaction_honest laws serialized] at answered
      split at answered
      · rename_i takes
        cases answered
        exact tracks.sent laws (laws.readsTx serialized) (Bool.and_eq_true_iff.mp takes).1
      · cases answered

theorem Tracks.sendEach (laws : ChainLaws lib rules) (chain : List Tx) :
    ∀ {session : Session ChainWorld}, Tracks lib rules start seen session taken →
      Tracks lib rules start seen (sendEach lib (honest lib rules) chain session).2 taken := by
  induction chain with
  | nil => exact id
  | cons tx rest ih =>
      intro session tracks
      have first := tracks.send laws tx
      unfold Session.sendEach
      rw [Action.bind_apply]
      rcases run : Session.send lib (honest lib rules) tx session with ⟨error | value, middle⟩
      · rw [run] at first
        exact first
      · rw [run] at first
        exact ih first

/-! ## `resync` -/

theorem Tracks.resync (tracks : Tracks lib rules start seen session taken)
    (laws : ChainLaws lib rules) :
    Tracks lib rules start seen (resync (honest lib rules) session).2 taken := by
  have read := @onWorld_of _ _ _ session _ _ (readTip_honest lib rules session.world)
  have moved : Tracks lib rules start seen { session with wallet := { session.wallet with
      tip := session.world.node.tip lib
      height := session.world.node.height
      lastTime := session.world.node.medianTime } } taken :=
    tracks.congr rfl tracks.caches.tip.symm tracks.caches.height.symm rfl rfl rfl
  have coins := @resyncFrom_honest lib rules laws _ moved.valid moved.caches.height
    (fun utxo cached => ((moved.caches.coins utxo).mp cached).1) _ 0 (List.drop_zero)
  unfold Session.resync
  rw [Action.bind_of_ok _ read]
  simp only [onWallet, Action.update_bind, Action.read_bind]
  dsimp only at coins
  rw [coins]
  exact moved

end Session

end BitcoinNodeTests
