import BitcoinNodeTests.Node.Chain

/-!
# What a node's rules keep

Every transaction of the chain spends outputs of the chain, every one of the mempool those
of either, and no id comes twice: a transaction that may join spends something nobody
does, and so is none of those that are there.  `Valid` says so of a node, and each call of
its RPC keeps it.
-/

set_option autoImplicit false

namespace BitcoinNodeTests

open Foundation

section Outputs

variable {lib : Btclib} {rules : NodeRules} {txs : List Tx} {tx : Tx}

theorem spentAmong_iff {outpoint : OutPoint} :
    spentAmong txs outpoint = true ↔
      ∃ tx ∈ txs, tx.isCoinbase = false ∧ outpoint ∈ tx.spends := by
  simp [spentAmong]

theorem spentAmong_append (more : List Tx) (outpoint : OutPoint) :
    spentAmong (txs ++ more) outpoint = (spentAmong txs outpoint || spentAmong more outpoint) := by
  simp [spentAmong]

theorem ChainLaws.isCoinbase_eq (laws : ChainLaws lib rules) {other : Tx}
    (same : lib.txId tx = lib.txId other) : tx.isCoinbase = other.isCoinbase := by
  unfold Tx.isCoinbase
  rw [(laws.ids same).1]

theorem spendable_regular (can : spendable lib txs tx) : tx.isCoinbase = false := by
  simp only [spendable, Bool.and_eq_true, Bool.not_eq_true'] at can
  exact can.1.1

theorem outputAmong_known {outpoint : OutPoint} (found : (outputAmong lib txs outpoint).isSome) :
    outpoint.txId ∈ txs.map lib.txId := by
  obtain ⟨txOut, isOutput⟩ := Option.isSome_iff_exists.mp found
  obtain ⟨parent, among, -⟩ := Option.bind_eq_some_iff.mp isOutput
  have named := List.find?_some among
  simp only [decide_eq_true_eq] at named
  rw [← named]
  exact List.mem_map_of_mem (List.mem_of_find?_eq_some among)

theorem spendable_parents (can : spendable lib txs tx) {outpoint : OutPoint}
    (spent : outpoint ∈ tx.spends) : outpoint.txId ∈ txs.map lib.txId := by
  simp only [spendable, Bool.and_eq_true, List.all_eq_true] at can
  exact outputAmong_known (can.2 outpoint spent).1

theorem spendable_new (laws : ChainLaws lib rules) (can : spendable lib txs tx) :
    lib.txId tx ∉ txs.map lib.txId := by
  intro known
  obtain ⟨other, among, same⟩ := List.mem_map.mp known
  have regular := spendable_regular can
  simp only [spendable, Bool.and_eq_true, Bool.not_eq_true', List.all_eq_true] at can
  obtain ⟨⟨-, some⟩, unspent⟩ := can
  cases inputs : tx.vin with
  | nil => simp [inputs] at some
  | cons txIn rest =>
      have spent : txIn.prevOut ∈ tx.spends := by simp [Tx.spends, inputs]
      have spentThere : spentAmong txs txIn.prevOut = true :=
        spentAmong_iff.mpr ⟨other, among, (laws.isCoinbase_eq same).trans regular,
          (laws.ids same).1 ▸ spent⟩
      have unspentThere := (unspent _ spent).2
      rw [spentThere] at unspentThere
      cases unspentThere

/-- Transactions connected one after another: none a coinbase and none known before, each
another, spending outputs known before or of one another. -/
structure Connectable (lib : Btclib) (txs rest : List Tx) : Prop where
  regular : ∀ tx ∈ rest, tx.isCoinbase = false
  new : ∀ tx ∈ rest, lib.txId tx ∉ txs.map lib.txId
  distinct : (rest.map lib.txId).Nodup
  parents : ∀ tx ∈ rest, ∀ outpoint ∈ tx.spends, outpoint.txId ∈ (txs ++ rest).map lib.txId

theorem connectable_spec (laws : ChainLaws lib rules) {rest : List Tx} :
    ∀ {txs : List Tx}, connectable lib txs rest → Connectable lib txs rest := by
  induction rest with
  | nil => exact fun _ => ⟨nofun, nofun, List.nodup_nil, nofun⟩
  | cons tx rest ih =>
      intro txs can
      obtain ⟨first, later⟩ := Bool.and_eq_true_iff.mp can
      have spec := ih later
      have firstNew := spendable_new laws first
      refine ⟨?_, ?_, ?_, ?_⟩
      · intro other member
        rcases List.mem_cons.mp member with rfl | member
        · exact spendable_regular first
        · exact spec.regular other member
      · intro other member
        rcases List.mem_cons.mp member with rfl | member
        · exact firstNew
        · intro known
          apply spec.new other member
          rw [List.map_append]
          exact List.mem_append_left _ known
      · refine List.nodup_cons.mpr ⟨?_, spec.distinct⟩
        intro again
        obtain ⟨other, member, same⟩ := List.mem_map.mp again
        apply spec.new other member
        rw [List.map_append, same]
        exact List.mem_append_right _ List.mem_cons_self
      · intro other member outpoint spent
        rcases List.mem_cons.mp member with rfl | member
        · rw [List.map_append]
          exact List.mem_append_left _ (spendable_parents first spent)
        · have parent := spec.parents other member outpoint spent
          rwa [List.append_assoc] at parent

end Outputs

namespace ChainNode

variable {lib : Btclib} {rules : NodeRules} {node : ChainNode} {block : Block} {tx : Tx}

structure Valid (lib : Btclib) (rules : NodeRules) (node : ChainNode) : Prop where
  chained : ∀ tx ∈ node.confirmed, tx.isCoinbase = false →
    ∀ outpoint ∈ tx.spends, outpoint.txId ∈ node.confirmed.map lib.txId
  pooled : ∀ tx ∈ node.mempool, ∀ outpoint ∈ tx.spends,
    outpoint.txId ∈ node.transactions.map lib.txId
  regular : ∀ tx ∈ node.mempool, tx.isCoinbase = false
  decoded : ∀ tx ∈ node.mempool, ∃ octets, rules.decodeTx octets = some tx
  apart : ∀ tx ∈ node.mempool, lib.txId tx ∉ node.confirmed.map lib.txId
  unique : (node.confirmed.map lib.txId).Nodup

/-- A block that connects: a new coinbase and transactions connected to the chain. -/
structure Connects (lib : Btclib) (node : ChainNode) (block : Block) (coinbase : Tx)
    (rest : List Tx) : Prop where
  transactions : block.transactions = coinbase :: rest
  isCoinbase : coinbase.isCoinbase = true
  new : lib.txId coinbase ∉ node.confirmed.map lib.txId
  rest : Connectable lib node.confirmed rest

theorem connects_spec (laws : ChainLaws lib rules) (can : node.connects lib block) :
    ∃ coinbase rest, Connects lib node block coinbase rest := by
  unfold ChainNode.connects at can
  split at can
  · cases can
  · rename_i coinbase rest transactions
    simp only [Bool.and_eq_true, decide_eq_true_eq] at can
    obtain ⟨⟨⟨-, isCoinbase⟩, new⟩, connected⟩ := can
    exact ⟨coinbase, rest, transactions, isCoinbase, new, connectable_spec laws connected⟩

theorem confirmed_connect (lib : Btclib) (block : Block) (node : ChainNode) :
    (node.connect lib block).confirmed = node.confirmed ++ block.transactions := by
  simp [confirmed, connect]

theorem transactions_relay (tx : Tx) (node : ChainNode) :
    (node.relay tx).transactions = node.transactions ++ [tx] := by
  simp [transactions, relay, confirmed]

theorem known_connect (block : Block) {txId : List Octet}
    (known : txId ∈ node.transactions.map lib.txId) :
    txId ∈ (node.connect lib block).transactions.map lib.txId := by
  unfold transactions at known ⊢
  rw [List.map_append] at known ⊢
  rw [confirmed_connect, List.map_append]
  rcases List.mem_append.mp known with inChain | inPool
  · exact List.mem_append_left _ (List.mem_append_left _ inChain)
  · obtain ⟨tx, member, rfl⟩ := List.mem_map.mp inPool
    by_cases carried : lib.txId tx ∈ block.transactions.map lib.txId
    · exact List.mem_append_left _ (List.mem_append_right _ carried)
    · exact List.mem_append_right _
        (List.mem_map_of_mem (List.mem_filter.mpr ⟨member, decide_eq_true carried⟩))

theorem valid_genesis (block : Block) : Valid lib rules ⟨block, [], []⟩ :=
  ⟨nofun, nofun, nofun, nofun, nofun, List.nodup_nil⟩

theorem Valid.relay (valid : node.Valid lib rules) (laws : ChainLaws lib rules)
    (can : spendable lib node.transactions tx) {octets : List Octet}
    (decoded : rules.decodeTx octets = some tx) : (node.relay tx).Valid lib rules := by
  have joins {P : Tx → Prop} (old : ∀ other ∈ node.mempool, P other) (isNew : P tx) :
      ∀ other ∈ (node.relay tx).mempool, P other := by
    intro other member
    rcases List.mem_append.mp member with member | member
    · exact old other member
    · rw [List.mem_singleton.mp member]
      exact isNew
  refine ⟨valid.chained, ?_, joins valid.regular (spendable_regular can),
    joins valid.decoded ⟨octets, decoded⟩, joins valid.apart ?_, valid.unique⟩
  · rw [transactions_relay, List.map_append]
    exact joins (fun other member outpoint spent =>
        List.mem_append_left _ (valid.pooled other member outpoint spent))
      (fun outpoint spent => List.mem_append_left _ (spendable_parents can spent))
  · intro known
    apply spendable_new laws can
    unfold transactions
    rw [List.map_append]
    exact List.mem_append_left _ known

theorem Valid.connect (valid : node.Valid lib rules) (laws : ChainLaws lib rules)
    {coinbase : Tx} {rest : List Tx} (can : Connects lib node block coinbase rest) :
    (node.connect lib block).Valid lib rules := by
  have stays {tx : Tx} (member : tx ∈ (node.connect lib block).mempool) : tx ∈ node.mempool :=
    List.mem_of_mem_filter member
  refine ⟨?_, ?_, fun tx member => valid.regular tx (stays member),
    fun tx member => valid.decoded tx (stays member), ?_, ?_⟩
  · intro tx member regular outpoint spent
    rw [confirmed_connect, List.map_append] at *
    rcases List.mem_append.mp member with old | new
    · exact List.mem_append_left _ (valid.chained tx old regular outpoint spent)
    · rw [can.transactions] at new ⊢
      rcases List.mem_cons.mp new with rfl | new
      · rw [can.isCoinbase] at regular
        cases regular
      · have parent := can.rest.parents tx new outpoint spent
        rw [List.map_append] at parent
        rcases List.mem_append.mp parent with before | within
        · exact List.mem_append_left _ before
        · exact List.mem_append_right _ (List.mem_cons_of_mem _ within)
  · exact fun tx member outpoint spent =>
      known_connect block (valid.pooled tx (stays member) outpoint spent)
  · intro tx member known
    obtain ⟨old, notCarried⟩ := List.mem_filter.mp member
    rw [confirmed_connect, List.map_append] at known
    rcases List.mem_append.mp known with before | carried
    · exact valid.apart tx old before
    · exact of_decide_eq_true notCarried carried
  · rw [confirmed_connect, List.map_append, can.transactions, List.map_cons]
    refine List.nodup_append'.mpr ⟨valid.unique, List.nodup_cons.mpr ⟨?_, can.rest.distinct⟩, ?_⟩
    · intro again
      obtain ⟨tx, member, same⟩ := List.mem_map.mp again
      have regular := can.rest.regular tx member
      rw [laws.isCoinbase_eq same, can.isCoinbase] at regular
      cases regular
    · intro id before carried
      rcases List.mem_cons.mp carried with rfl | carried
      · exact can.new before
      · obtain ⟨tx, member, rfl⟩ := List.mem_map.mp carried
        exact can.rest.new tx member before

/-! ## What joins a node -/

/-- The ids confirmed since a node was as before, and those in the mempool that it did not
know then. -/
def joined (lib : Btclib) (before after : ChainNode) : List (List Octet) :=
  (after.confirmed.map lib.txId).filter (· ∉ before.confirmed.map lib.txId) ++
    (after.mempool.map lib.txId).filter (· ∉ before.transactions.map lib.txId)

theorem mem_joined_iff {before after : ChainNode} {txId : List Octet} :
    txId ∈ joined lib before after ↔
      (txId ∈ after.confirmed.map lib.txId ∧ txId ∉ before.confirmed.map lib.txId) ∨
        (txId ∈ after.mempool.map lib.txId ∧ txId ∉ before.transactions.map lib.txId) := by
  unfold joined
  rw [List.mem_append, List.mem_filter, List.mem_filter, decide_eq_true_iff, decide_eq_true_iff]

theorem mem_known_iff {txId : List Octet} : txId ∈ node.transactions.map lib.txId ↔
    txId ∈ node.confirmed.map lib.txId ∨ txId ∈ node.mempool.map lib.txId := by
  unfold transactions
  rw [List.map_append, List.mem_append]

theorem not_mem_joined_self (txId : List Octet) : txId ∉ joined lib node node := by
  rw [mem_joined_iff]
  rintro (⟨now, before⟩ | ⟨now, before⟩)
  · exact before now
  · exact before (mem_known_iff.mpr (.inr now))

/-- A node has lost no transaction, and none from its chain. -/
structure Grown (lib : Btclib) (before after : ChainNode) : Prop where
  confirmed : ∀ txId ∈ before.confirmed.map lib.txId, txId ∈ after.confirmed.map lib.txId
  known : ∀ txId ∈ before.transactions.map lib.txId, txId ∈ after.transactions.map lib.txId

theorem Grown.refl (lib : Btclib) (node : ChainNode) : Grown lib node node :=
  ⟨fun _ => id, fun _ => id⟩

section Grown

variable {start : ChainNode} {coinbase : Tx} {rest : List Tx}

theorem Grown.relay (grown : Grown lib start node) (tx : Tx) : Grown lib start (node.relay tx) := by
  refine ⟨grown.confirmed, fun txId member => ?_⟩
  rw [transactions_relay, List.map_append]
  exact List.mem_append_left _ (grown.known txId member)

theorem Grown.connect (grown : Grown lib start node) (block : Block) :
    Grown lib start (node.connect lib block) := by
  refine ⟨fun txId member => ?_, fun txId member => known_connect block (grown.known txId member)⟩
  rw [confirmed_connect, List.map_append]
  exact List.mem_append_left _ (grown.confirmed txId member)

theorem Grown.joined_relay (grown : Grown lib start node)
    (new : lib.txId tx ∉ node.transactions.map lib.txId) (txId : List Octet) :
    txId ∈ joined lib start (node.relay tx) ↔
      txId ∈ joined lib start node ∨ txId = lib.txId tx := by
  have pool : (node.relay tx).mempool.map lib.txId = node.mempool.map lib.txId ++ [lib.txId tx] := by
    rw [ChainNode.relay, List.map_append]
    rfl
  have chain : (node.relay tx).confirmed = node.confirmed := rfl
  rw [mem_joined_iff, mem_joined_iff, pool, chain, List.mem_append, List.mem_singleton]
  constructor
  · rintro (confirmed | ⟨inPool | rfl, unknown⟩)
    · exact .inl (.inl confirmed)
    · exact .inl (.inr ⟨inPool, unknown⟩)
    · exact .inr rfl
  · rintro ((confirmed | ⟨inPool, unknown⟩) | rfl)
    · exact .inl confirmed
    · exact .inr ⟨.inl inPool, unknown⟩
    · exact .inr ⟨.inr rfl, fun known => new (grown.known _ known)⟩

/-- A block puts its own transactions on the node; what the mempool loses the chain has. -/
theorem Grown.joined_connect (grown : Grown lib start node)
    (can : Connects lib node block coinbase rest) (txId : List Octet) :
    txId ∈ joined lib start (node.connect lib block) ↔
      txId ∈ joined lib start node ∨ txId ∈ rest.map lib.txId ∨ txId = lib.txId coinbase := by
  have chain : txId ∈ (node.connect lib block).confirmed.map lib.txId ↔
      txId ∈ node.confirmed.map lib.txId ∨ txId = lib.txId coinbase ∨ txId ∈ rest.map lib.txId := by
    rw [confirmed_connect, can.transactions, List.map_append, List.mem_append, List.map_cons,
      List.mem_cons]
  have kept (inPool : txId ∈ (node.connect lib block).mempool.map lib.txId) :
      txId ∈ node.mempool.map lib.txId := by
    obtain ⟨tx, member, rfl⟩ := List.mem_map.mp inPool
    exact List.mem_map_of_mem (List.mem_of_mem_filter member)
  rw [mem_joined_iff, mem_joined_iff, chain]
  constructor
  · rintro (⟨confirmed | isCoinbase | carried, before⟩ | ⟨inPool, unknown⟩)
    · exact .inl (.inl ⟨confirmed, before⟩)
    · exact .inr (.inr isCoinbase)
    · exact .inr (.inl carried)
    · exact .inl (.inr ⟨kept inPool, unknown⟩)
  · rintro ((⟨confirmed, before⟩ | ⟨inPool, unknown⟩) | carried | rfl)
    · exact .inl ⟨.inl confirmed, before⟩
    · rcases mem_known_iff.mp (known_connect block (mem_known_iff.mpr (.inr inPool))) with
        inChain | left
      · exact .inl ⟨chain.mp inChain, fun before => unknown (mem_known_iff.mpr (.inl before))⟩
      · exact .inr ⟨left, unknown⟩
    · obtain ⟨tx, member, rfl⟩ := List.mem_map.mp carried
      exact .inl ⟨.inr (.inr carried), fun before =>
        can.rest.new tx member (grown.confirmed _ before)⟩
    · exact .inl ⟨.inr (.inl rfl), fun before => can.new (grown.confirmed _ before)⟩

end Grown

/-! ## Calls -/

inductive Step (lib : Btclib) (rules : NodeRules) (node : ChainNode) : ChainNode → Prop where
  | same : Step lib rules node node
  | relayed {tx : Tx} {octets : List Octet} (decoded : rules.decodeTx octets = some tx)
      (can : spendable lib node.transactions tx) : Step lib rules node (node.relay tx)
  | connected {block : Block} (can : node.connects lib block) :
      Step lib rules node (node.connect lib block)

theorem sendRawTransaction_step (lib : Btclib) (rules : NodeRules) (text : String)
    (node : ChainNode) : Step lib rules node (node.sendRawTransaction lib rules text).2 := by
  unfold sendRawTransaction
  split
  · exact .same
  · rename_i tx read
    obtain ⟨octets, -, decoded⟩ := Option.bind_eq_some_iff.mp read
    split
    · rename_i can
      exact .relayed decoded (Bool.and_eq_true_iff.mp can).1
    · exact .same

theorem submitBlock_step (lib : Btclib) (rules : NodeRules) (text : String) (node : ChainNode) :
    Step lib rules node (node.submitBlock lib rules text).2 := by
  unfold submitBlock
  split
  · exact .same
  · split
    · rename_i can
      exact .connected (Bool.and_eq_true_iff.mp can).1
    · exact .same

theorem answer_step (lib : Btclib) (rules : NodeRules) (method : String) (params : List Json)
    (node : ChainNode) : Step lib rules node (node.answer lib rules method params).2 := by
  unfold answer
  split
  · exact .same
  · exact .same
  · exact .same
  · split
    · exact .same
    · exact .same
  · exact .same
  · exact .same
  · exact sendRawTransaction_step lib rules _ node
  · exact submitBlock_step lib rules _ node
  · exact .same

theorem Step.valid {reached : ChainNode} (step : Step lib rules node reached)
    (laws : ChainLaws lib rules) (valid : node.Valid lib rules) : reached.Valid lib rules := by
  cases step with
  | same => exact valid
  | relayed decoded can => exact valid.relay laws can decoded
  | connected can =>
      obtain ⟨coinbase, rest, connects⟩ := connects_spec laws can
      exact valid.connect laws connects

end ChainNode

theorem Reached.valid {lib : Btclib} {rules : NodeRules} {world : ChainWorld}
    (reached : Reached lib rules world) (laws : ChainLaws lib rules) :
    world.node.Valid lib rules := by
  induction reached with
  | genesis block ticks => exact ChainNode.valid_genesis block
  | called method params _ ih => exact (ChainNode.answer_step lib rules method params _).valid laws ih
  | ticked _ ih => exact ih

end BitcoinNodeTests
