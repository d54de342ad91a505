import BitcoinNodeTests.MiniWallet.Simulation

/-!
# The cache simulates the node

A block that `generate` mines, with transactions the wallet sent, ones it never saw and ones
whose coins the mempool spends already, keeps the simulation too.  So does every call, and
so every run of calls and of broadcasts by others, whatever the calls raise.
-/

set_option autoImplicit false

namespace BitcoinNodeTests

open Foundation Wallet

/-! ## The coins of a block -/

section Block

variable {lib : Btclib}

theorem paidBy_nodup {confirm : List Tx} (distinct : (confirm.map lib.txId).Nodup)
    (wallet : Wallet) : ((wallet.paidBy lib confirm).map Utxo.outpoint).Nodup := by
  unfold Wallet.paidBy
  have ids : ((confirm.filter fun tx => lib.txId tx ∉ wallet.scanned).map lib.txId).Nodup :=
    distinct.sublist (List.filter_sublist.map lib.txId)
  rw [List.map_flatMap, List.nodup_flatMap]
  refine ⟨fun tx _ => newUtxos_nodup lib tx, ?_⟩
  refine (List.pairwise_map.mp ids).imp ?_
  intro first second differ outpoint paid again
  obtain ⟨coin, isPaid, rfl⟩ := List.mem_map.mp paid
  obtain ⟨other, isPaidAgain, same⟩ := List.mem_map.mp again
  apply differ
  rw [← newUtxos_txId isPaid, ← newUtxos_txId isPaidAgain, same]

theorem mem_paidBy {confirm : List Tx} {wallet : Wallet} {utxo : Utxo} :
    utxo ∈ wallet.paidBy lib confirm ↔
      ∃ tx ∈ confirm, lib.txId tx ∉ wallet.scanned ∧ utxo ∈ newUtxos lib tx := by
  unfold Wallet.paidBy
  simp only [List.mem_flatMap, List.mem_filter, decide_eq_true_eq, and_assoc]

theorem mem_newlyPaid {confirm : List Tx} {spends : List OutPoint} {wallet : Wallet}
    {utxo : Utxo} : utxo ∈ wallet.newlyPaid lib confirm spends ↔
      (∃ tx ∈ confirm, lib.txId tx ∉ wallet.scanned ∧ utxo ∈ newUtxos lib tx) ∧
        utxo.outpoint ∉ spentBy confirm ∧ utxo.outpoint ∉ spends := by
  unfold Wallet.newlyPaid
  rw [List.mem_filter, mem_paidBy, decide_eq_true_iff]

theorem mem_survivors {confirm : List Tx} {spends : List OutPoint} {wallet : Wallet}
    {utxo : Utxo} : utxo ∈ wallet.survivors lib confirm spends ↔
      utxo ∈ wallet.utxos ∧ utxo.outpoint ∉ spentBy confirm ∧
        ¬ (utxo.outpoint ∈ (wallet.paidBy lib confirm).map Utxo.outpoint ∧
          utxo.outpoint ∈ spends) := by
  unfold Wallet.survivors Wallet.unspentBy
  rw [List.mem_filter, List.mem_filter, decide_eq_true_iff, decide_eq_true_iff, and_assoc]

theorem paidBy_coinbase_iff {coinbase : Tx} {height : Int} {others : List TxOut}
    (pays : coinbase.vout =
      ⟨lib.subsidy height REGTEST_SUBSIDY_HALVING_INTERVAL, lib.anyoneCanSpend⟩ :: others)
    (away : ∀ txOut ∈ others, txOut.scriptPubKey ≠ lib.anyoneCanSpend) {utxo : Utxo} :
    ChainNode.PaidBy lib coinbase height utxo ↔
      utxo = Session.coinbaseCoin lib height coinbase := by
  constructor
  · rintro ⟨named, output, isHeight, isCoinbase⟩
    obtain ⟨⟨txId, vout⟩, value, coinHeight, flag⟩ := utxo
    dsimp only at named output isHeight isCoinbase
    subst named isHeight isCoinbase
    rw [pays] at output
    cases vout with
    | zero =>
        rw [List.getElem?_cons_zero, Option.some.injEq] at output
        cases output
        rfl
    | succ vout =>
        rw [List.getElem?_cons_succ] at output
        exact absurd rfl (away _ (List.mem_of_getElem? output))
  · rintro rfl
    refine ⟨rfl, ?_, rfl, rfl⟩
    rw [pays]
    rfl

end Block

namespace Session

variable {lib : Btclib} {rules : NodeRules} {start : ChainNode} {seen : List (List Octet)}
  {session reached : Session ChainWorld} {taken : List OutPoint} {block : Block}
  {coinbase : Tx} {confirm : List Tx} {mined : Mined}

/-- The spends of the mempool a block leaves, which `generate` reads once it is accepted. -/
abbrev leftSpends (lib : Btclib) (session : Session ChainWorld) (block : Block) : List OutPoint :=
  spentBy (session.world.node.connect lib block).mempool

/-- The coins of a transaction that a block carries and no scan has seen were not taken. -/
theorem Tracks.untaken_unscanned (tracks : Tracks lib rules start seen session taken)
    (can : ChainNode.Connects lib session.world.node block coinbase confirm) {tx : Tx}
    (member : tx ∈ confirm) (unscanned : lib.txId tx ∉ session.wallet.scanned) {outpoint : OutPoint}
    (named : outpoint.txId = lib.txId tx) :
    ¬ session.Seen lib outpoint.txId ∧ outpoint ∉ taken := by
  have unseen : ¬ session.Seen lib outpoint.txId := by
    rw [named]
    rintro (scanned | mined)
    · exact unscanned scanned
    · exact can.rest.new tx member (tracks.mined _ mined)
  exact ⟨unseen, fun isTaken => unseen (tracks.taken outpoint isTaken)⟩

/-- A coin the mempool left does not spend, and no transaction of the block, is unspent where
a transaction of the block pays it. -/
theorem unspent_of_left (laws : ChainLaws lib rules)
    (valid : session.world.node.Valid lib rules)
    (can : ChainNode.Connects lib session.world.node block coinbase confirm) {tx : Tx}
    (member : tx ∈ confirm) {outpoint : OutPoint} (named : outpoint.txId = lib.txId tx)
    (notCarried : outpoint ∉ spentBy confirm) (notLeft : outpoint ∉ leftSpends lib session block) :
    spentAmong session.world.node.transactions outpoint = false := by
  rw [← Bool.not_eq_true, spentAmong_iff]
  rintro ⟨spender, among, regular, spent⟩
  rcases List.mem_append.mp among with inChain | inPool
  · have known := valid.chained spender inChain regular outpoint spent
    rw [named] at known
    exact can.rest.new tx member known
  · by_cases carried : lib.txId spender ∈ block.transactions.map lib.txId
    · obtain ⟨copy, copied, same⟩ := List.mem_map.mp carried
      rw [can.transactions] at copied
      rcases List.mem_cons.mp copied with rfl | copied
      · rw [← laws.isCoinbase_eq same, can.isCoinbase] at regular
        cases regular
      · exact notCarried (List.mem_flatMap.mpr ⟨copy, copied, (laws.ids same).1 ▸ spent⟩)
    · exact notLeft (List.mem_flatMap.mpr
        ⟨spender, List.mem_filter.mpr ⟨inPool, decide_eq_true carried⟩, spent⟩)

theorem spent_of_left (valid : session.world.node.Valid lib rules) {outpoint : OutPoint}
    (left : outpoint ∈ leftSpends lib session block) :
    spentAmong session.world.node.transactions outpoint = true := by
  obtain ⟨spender, member, spent⟩ := List.mem_flatMap.mp left
  have inPool := List.mem_of_mem_filter member
  exact spentAmong_iff.mpr
    ⟨spender, List.mem_append_right _ inPool, valid.regular spender inPool, spent⟩

/-- The coins the scan leaves of those cached are ones the node holds, of transactions seen. -/
theorem Tracks.survivor (tracks : Tracks lib rules start seen session taken)
    (laws : ChainLaws lib rules)
    (can : ChainNode.Connects lib session.world.node block coinbase confirm) {old : Utxo}
    (survives : old ∈ session.wallet.survivors lib confirm (leftSpends lib session block)) :
    (session.world.node.connect lib block).Holds lib
        (confirmedTo lib (session.world.node.height + 1) confirm old) ∧
      session.Seen lib old.outpoint.txId ∧ old.outpoint ∉ taken := by
  obtain ⟨cached, notSpent, -⟩ := mem_survivors.mp survives
  obtain ⟨holds, seen, untaken⟩ := (tracks.caches.coins old).mp cached
  have held := (ChainNode.holds_connect laws tracks.valid can).mpr
    (.inl ⟨old, holds, notSpent, rfl⟩)
  exact ⟨held, seen, untaken⟩

/-- The coins the scan adds and the mempool does not spend are ones the node holds. -/
theorem Tracks.newly_paid (tracks : Tracks lib rules start seen session taken)
    (laws : ChainLaws lib rules)
    (can : ChainNode.Connects lib session.world.node block coinbase confirm) {new : Utxo}
    (paid : new ∈ session.wallet.newlyPaid lib confirm (leftSpends lib session block)) :
    (session.world.node.connect lib block).Holds lib
        { new with height := session.world.node.height + 1 } ∧
      new.outpoint.txId ∈ confirm.map lib.txId ∧ new.outpoint ∉ taken := by
  obtain ⟨⟨tx, member, unscanned, isNew⟩, notSpent, notLeft⟩ := mem_newlyPaid.mp paid
  have named := newUtxos_txId isNew
  have carried : new.outpoint.txId ∈ confirm.map lib.txId := named ▸ List.mem_map_of_mem member
  refine ⟨(ChainNode.holds_connect laws tracks.valid can).mpr ?_, carried,
    (tracks.untaken_unscanned can member unscanned named).2⟩
  by_cases known : lib.txId tx ∈ session.world.node.transactions.map lib.txId
  · -- the mempool has it, and nobody spends the coin there
    obtain ⟨copy, inPool, same⟩ := can.pooled member known
    obtain ⟨-, output, height, isCoinbase⟩ := mem_newUtxos.mp isNew
    refine .inl ⟨new, ⟨⟨copy, ?_, same.trans named.symm, ?_⟩, ?_⟩, notSpent, ?_⟩
    · rw [height, isCoinbase]
      exact .pooled inPool
    · rw [(laws.ids same).2]
      exact output
    · exact unspent_of_left laws tracks.valid can member named notSpent notLeft
    · rw [confirmedTo, if_pos carried]
  · exact .inr (.inl ⟨tx, member, known, new, isNew, notSpent, rfl⟩)

/-- What `generate` leaves in the cache is what the node holds of the transactions seen. -/
theorem Tracks.block_coins (tracks : Tracks lib rules start seen session taken)
    (laws : ChainLaws lib rules)
    (can : ChainNode.Connects lib session.world.node block coinbase confirm)
    {others : List TxOut}
    (pays : coinbase.vout = ⟨lib.subsidy (session.world.node.height + 1)
      REGTEST_SUBSIDY_HALVING_INTERVAL, lib.anyoneCanSpend⟩ :: others)
    (away : ∀ txOut ∈ others, txOut.scriptPubKey ≠ lib.anyoneCanSpend) (utxo : Utxo) :
    ((∃ old ∈ session.wallet.survivors lib confirm (leftSpends lib session block),
          utxo = confirmedTo lib (session.world.node.height + 1) confirm old) ∨
        (∃ new ∈ session.wallet.newlyPaid lib confirm (leftSpends lib session block),
          utxo = { new with height := session.world.node.height + 1 }) ∨
        utxo = coinbaseCoin lib (session.world.node.height + 1) coinbase) ↔
      (session.world.node.connect lib block).Holds lib utxo ∧
        (session.Seen lib utxo.outpoint.txId ∨ utxo.outpoint.txId ∈ confirm.map lib.txId ∨
          utxo.outpoint.txId = lib.txId coinbase) ∧ utxo.outpoint ∉ taken := by
  have coinbaseUnknown := can.coinbase_unknown laws tracks.valid
  constructor
  · rintro (⟨old, survives, rfl⟩ | ⟨new, paid, rfl⟩ | rfl)
    · obtain ⟨held, seen, untaken⟩ := tracks.survivor laws can survives
      rw [confirmedTo_outpoint]
      exact ⟨held, .inl seen, untaken⟩
    · obtain ⟨held, carried, untaken⟩ := tracks.newly_paid laws can paid
      exact ⟨held, .inr (.inl carried), untaken⟩
    · refine ⟨(ChainNode.holds_connect laws tracks.valid can).mpr (.inr (.inr ?_)),
        .inr (.inr rfl), tracks.untaken coinbaseUnknown⟩
      exact (paidBy_coinbase_iff pays away).mpr rfl
  · rintro ⟨holds, seen, untaken⟩
    rcases (ChainNode.holds_connect laws tracks.valid can).mp holds with
      ⟨old, held, notSpent, rfl⟩ | ⟨tx, member, unknown, new, isNew, notSpent, rfl⟩ | paid
    · rw [confirmedTo_outpoint] at seen untaken
      have notLeft : old.outpoint ∉ leftSpends lib session block := by
        intro left
        have spent := spent_of_left tracks.valid left
        rw [held.unspent] at spent
        cases spent
      by_cases isSeen : session.Seen lib old.outpoint.txId
      · have cached := (tracks.caches.coins old).mpr ⟨held, isSeen, untaken⟩
        exact .inl ⟨old, mem_survivors.mpr ⟨cached, notSpent, fun both => notLeft both.2⟩, rfl⟩
      · -- a coin of the mempool, of a transaction the wallet did not see until now
        rcases seen.resolve_left isSeen with carried | isCoinbase
        · obtain ⟨tx, member, same⟩ := List.mem_map.mp carried
          have unscanned : lib.txId tx ∉ session.wallet.scanned := by
            rw [same]
            exact fun scanned => isSeen (.inl scanned)
          have isNew := held.of_carried laws can member same.symm
          refine .inr (.inl ⟨old, mem_newlyPaid.mpr
            ⟨⟨tx, member, unscanned, isNew⟩, notSpent, notLeft⟩, ?_⟩)
          rw [confirmedTo, if_pos carried]
        · exact absurd (isCoinbase ▸ held.known) coinbaseUnknown
    · have named := newUtxos_txId isNew
      have unscanned : lib.txId tx ∉ session.wallet.scanned :=
        fun scanned => unknown (tracks.scanned _ scanned)
      have notLeft : new.outpoint ∉ leftSpends lib session block := by
        intro left
        have spent := spent_of_left tracks.valid left
        rw [tracks.valid.unspent_unknown (named ▸ unknown)] at spent
        cases spent
      exact .inr (.inl ⟨new, mem_newlyPaid.mpr
        ⟨⟨tx, member, unscanned, isNew⟩, notSpent, notLeft⟩, rfl⟩)
    · exact .inr (.inr ((paidBy_coinbase_iff pays away).mp paid))

/-- The coins a block leaves in the cache are at distinct outpoints. -/
theorem Tracks.block_distinct (tracks : Tracks lib rules start seen session taken)
    (laws : ChainLaws lib rules)
    (can : ChainNode.Connects lib session.world.node block coinbase confirm) (height : Int)
    (spends : List OutPoint) :
    (((session.wallet.survivors lib confirm spends).map (confirmedTo lib height confirm) ++
        (session.wallet.newlyPaid lib confirm spends).map
          (fun utxo : Utxo => { utxo with height := height }) ++
          [coinbaseCoin lib height coinbase]).map Utxo.outpoint).Nodup := by
  have oldOutpoints : ((session.wallet.survivors lib confirm spends).map
      (confirmedTo lib height confirm)).map Utxo.outpoint =
        (session.wallet.survivors lib confirm spends).map Utxo.outpoint := by
    rw [List.map_map]
    exact List.map_congr_left fun utxo _ => confirmedTo_outpoint height utxo
  have newOutpoints : ((session.wallet.newlyPaid lib confirm spends).map
      fun utxo => { utxo with height := height }).map Utxo.outpoint =
        (session.wallet.newlyPaid lib confirm spends).map Utxo.outpoint := by
    rw [List.map_map]
    rfl
  have known {utxo : Utxo} (survives : utxo ∈ session.wallet.survivors lib confirm spends) :
      session.Seen lib utxo.outpoint.txId :=
    ((tracks.caches.coins utxo).mp (mem_survivors.mp survives).1).2.1
  rw [List.map_append, List.map_append, oldOutpoints, newOutpoints, List.map_singleton]
  refine List.nodup_append'.mpr ⟨List.nodup_append'.mpr ⟨?_, ?_, ?_⟩, List.nodup_singleton _, ?_⟩
  · refine tracks.caches.distinct.sublist (List.Sublist.map Utxo.outpoint ?_)
    exact List.filter_sublist.trans List.filter_sublist
  · exact (paidBy_nodup can.rest.distinct session.wallet).sublist
      (List.filter_sublist.map Utxo.outpoint)
  · intro outpoint old new
    obtain ⟨coin, survives, rfl⟩ := List.mem_map.mp old
    obtain ⟨other, paid, same⟩ := List.mem_map.mp new
    obtain ⟨⟨tx, member, unscanned, isNew⟩, -, -⟩ := mem_newlyPaid.mp paid
    have named := newUtxos_txId isNew
    have unseen := (tracks.untaken_unscanned can member unscanned named).1
    rw [same] at unseen
    exact unseen (known survives)
  · intro outpoint before isCoinbase
    rw [List.mem_singleton.mp isCoinbase] at before
    rcases List.mem_append.mp before with old | new
    · obtain ⟨coin, survives, same⟩ := List.mem_map.mp old
      have isKnown := tracks.seen_known (known survives)
      rw [same] at isKnown
      exact can.coinbase_unknown laws tracks.valid isKnown
    · obtain ⟨other, paid, same⟩ := List.mem_map.mp new
      obtain ⟨⟨tx, member, -, isNew⟩, -, -⟩ := mem_newlyPaid.mp paid
      have carried : other.outpoint.txId ∈ confirm.map lib.txId :=
        newUtxos_txId isNew ▸ List.mem_map_of_mem member
      rw [same] at carried
      exact can.coinbase_apart laws carried

/-- What a turn of `generate` records of a block that connects. -/
structure Records (lib : Btclib) (block : Block) (coinbase : Tx) (confirm : List Tx)
    (mined : Mined) (session reached : Session ChainWorld) : Prop where
  node : reached.world.node = session.world.node.connect lib block
  tip : reached.wallet.tip = lib.blockHash block.header
  height : reached.wallet.height = session.world.node.height + 1
  utxos : reached.wallet.utxos =
    (session.wallet.survivors lib confirm (leftSpends lib session block)).map
        (confirmedTo lib (session.world.node.height + 1) confirm) ++
      (session.wallet.newlyPaid lib confirm (leftSpends lib session block)).map
        (fun utxo => { utxo with height := session.world.node.height + 1 }) ++
      [coinbaseCoin lib (session.world.node.height + 1) coinbase]
  scanned : reached.wallet.scanned = session.wallet.scanned ∪ (confirm.map lib.txId).toFinset
  accepted : reached.accepted = session.accepted ++ [mined]
  coin : coinOf lib mined = some (coinbaseCoin lib (session.world.node.height + 1) coinbase)

theorem Records.sees (records : Records lib block coinbase confirm mined session reached)
    (txId : List Octet) : reached.Seen lib txId ↔
      session.Seen lib txId ∨ txId ∈ confirm.map lib.txId ∨ txId = lib.txId coinbase := by
  have mined : (coinbaseOutpoints lib reached.accepted).map OutPoint.txId =
      (coinbaseOutpoints lib session.accepted).map OutPoint.txId ++ [lib.txId coinbase] := by
    unfold coinbaseOutpoints
    rw [records.accepted, List.filterMap_append, List.filterMap_cons_some records.coin,
      List.filterMap_nil, List.map_append, List.map_append]
    rfl
  unfold Seen
  rw [records.scanned, mined, Finset.mem_union, List.mem_toFinset, List.mem_append,
    List.mem_singleton]
  tauto

theorem Tracks.records (tracks : Tracks lib rules start seen session taken)
    (laws : ChainLaws lib rules)
    (can : ChainNode.Connects lib session.world.node block coinbase confirm)
    {others : List TxOut}
    (pays : coinbase.vout = ⟨lib.subsidy (session.world.node.height + 1)
      REGTEST_SUBSIDY_HALVING_INTERVAL, lib.anyoneCanSpend⟩ :: others)
    (away : ∀ txOut ∈ others, txOut.scriptPubKey ≠ lib.anyoneCanSpend) {mined : Mined}
    (records : Records lib block coinbase confirm mined session reached) :
    Tracks lib rules start seen reached taken := by
  have confirmed : reached.world.node.confirmed.map lib.txId =
      session.world.node.confirmed.map lib.txId ++ lib.txId coinbase :: confirm.map lib.txId := by
    rw [records.node, ChainNode.confirmed_connect, can.transactions, List.map_append,
      List.map_cons]
  have inChain {txId : List Octet} (member : txId ∈ reached.world.node.confirmed.map lib.txId) :
      txId ∈ reached.world.node.transactions.map lib.txId := by
    unfold ChainNode.transactions
    rw [List.map_append]
    exact List.mem_append_left _ member
  refine ⟨?_, ⟨?_, ?_, ?_, ?_⟩, ?_, ?_, ?_, ?_, ?_⟩
  · rw [records.node]
    exact tracks.valid.connect laws can
  · rw [records.tip, records.node, ChainNode.tip, ChainNode.connect]
    simp
  · rw [records.height, records.node, ChainNode.height, ChainNode.height, ChainNode.connect]
    simp
  · unfold Wallet.outpoints
    rw [records.utxos]
    exact tracks.block_distinct laws can _ _
  · intro utxo
    rw [records.node, records.sees, ← tracks.block_coins laws can pays away, records.utxos,
      List.mem_append, List.mem_append, List.mem_map, List.mem_map, List.mem_singleton, or_assoc]
    simp only [eq_comm]
  · intro txId scanned
    rw [records.scanned, Finset.mem_union, List.mem_toFinset] at scanned
    rcases scanned with before | carried
    · rw [records.node]
      exact ChainNode.known_connect block (tracks.scanned txId before)
    · apply inChain
      rw [confirmed]
      exact List.mem_append_right _ (List.mem_cons_of_mem _ carried)
  · intro txId member
    rw [confirmed]
    unfold coinbaseOutpoints at member
    rw [records.accepted, List.filterMap_append, List.map_append, List.map_append] at member
    rcases List.mem_append.mp member with before | now
    · exact List.mem_append_left _ (tracks.mined txId before)
    · rw [List.filterMap_cons_some records.coin, List.filterMap_nil] at now
      rw [List.mem_singleton.mp now]
      exact List.mem_append_right _ List.mem_cons_self
  · exact fun outpoint isTaken =>
      (records.sees _).mpr (.inl (tracks.taken outpoint isTaken))
  · rw [records.node]
    exact tracks.grown.connect block
  · intro txId
    have step := tracks.grown.joined_connect can txId
    have before := tracks.joined txId
    rw [records.sees, records.node, step, before, or_assoc]

/-! ## `generate` -/

theorem MinedNext.sameNode {world : ChainWorld}
    (next : MinedNext lib (honest lib rules) confirm session mined world) :
    world.node = session.world.node := by
  have moved := mineOne_sameNode lib rules session.wallet.tip mined.height
    session.wallet.lastTime lib.anyoneCanSpend confirm (.default lib) session.world
  rw [next.2] at moved
  exact moved

/-- A block the node accepted connects, and the node is the one it connects to. -/
theorem Submitted.connects (laws : ChainLaws lib rules) {world : ChainWorld}
    (submitted : Submitted lib (honest lib rules) confirm session mined (.ok .null) world) :
    session.world.node.connects lib mined.block ∧
      world.node = session.world.node.connect lib mined.block := by
  obtain ⟨before, octets, next, serialized, answered⟩ := submitted
  rw [submitBlock_honest laws serialized] at answered
  split at answered
  · rename_i takes
    cases answered
    rw [next.sameNode] at takes ⊢
    exact ⟨(Bool.and_eq_true_iff.mp takes).1, rfl⟩
  · cases answered

/-- A turn whose block the node accepted records it. -/
theorem Tracks.recorded (tracks : Tracks lib rules start seen session taken)
    (laws : ChainLaws lib rules)
    (distinct : (confirm.map lib.txId).Nodup) (parents : ParentsFirst lib confirm)
    {world later : ChainWorld} {wallet : Wallet} {rest : List Tx}
    (submitted : Submitted lib (honest lib rules) confirm session mined (.ok .null) world)
    (read : MempoolRead lib (honest lib rules) confirm session world wallet later)
    (transactions : mined.block.transactions = coinbase :: rest) :
    Tracks lib rules start seen (session.withAccepted later mined
      (recordBlock lib mined.height mined.block mined.time coinbase wallet)) taken := by
  obtain ⟨connects, node⟩ := submitted.connects laws
  obtain ⟨before, next⟩ := submitted.mined
  obtain ⟨built, coinbaseBuilt, carries⟩ := next.coinbase laws.blocks
  rw [transactions] at carries
  obtain ⟨rfl, rfl⟩ : coinbase = lib.commitWitnesses built confirm ∧ rest = confirm := by
    simpa using carries
  have can : ChainNode.Connects lib session.world.node mined.block
      (lib.commitWitnesses built rest) rest := by
    obtain ⟨other, others, spec⟩ := ChainNode.connects_spec laws connects
    have same := spec.transactions
    rw [transactions] at same
    obtain ⟨rfl, rfl⟩ : lib.commitWitnesses built rest = other ∧ rest = others := by
      simpa using same
    exact spec
  have height : mined.height = session.world.node.height + 1 :=
    next.1.trans (congrArg (· + 1) tracks.caches.height)
  obtain ⟨others, pays, away⟩ := laws.pays coinbaseBuilt rest
  rw [height] at pays
  have valid : world.node.Valid lib rules := by
    rw [node]
    exact tracks.valid.connect laws can
  have honestRead := mempoolSpends_honest laws valid
  have sameLater : later.node = world.node := by
    cases read with
    | unneeded nothing => rfl
    | read added answered =>
        rw [honestRead] at answered
        cases answered
        rfl
  have walletLeft := read.eq_forget fun _ => ⟨world, honestRead⟩
  refine tracks.records laws can pays away ⟨?_, rfl, height, ?_, ?_, rfl, ?_⟩
  · exact sameLater.trans node
  · have utxos := scanned_forget distinct parents session.wallet mined.height
      (spentBy world.node.mempool)
    have recorded : (session.withAccepted later mined (recordBlock lib mined.height mined.block
        mined.time (lib.commitWitnesses built rest) wallet)).wallet.utxos =
          wallet.utxos ++ [coinbaseCoin lib mined.height (lib.commitWitnesses built rest)] := rfl
    have scanned : wallet.utxos = _ := (congrArg Wallet.utxos walletLeft).trans (next.1 ▸ utxos)
    rw [recorded, scanned, ← next.1, height, node]
  · have ids := scanned_ids distinct parents session.wallet
    have scanned : wallet.scanned = _ := congrArg Wallet.scanned walletLeft
    rw [← ids]
    exact scanned
  · rw [coinOf, transactions, ← height]
    rfl

theorem Tracks.generateNext (tracks : Tracks lib rules start seen session taken)
    (laws : ChainLaws lib rules) (distinct : (confirm.map lib.txId).Nodup)
    (parents : ParentsFirst lib confirm) :
    Tracks lib rules start seen (generateNext lib (honest lib rules) confirm session).2 taken := by
  have turn := generateNext_turn lib (honest lib rules) confirm session
  have still {world : ChainWorld} {mined : List Mined}
      (same : world.node = session.world.node) :
      Tracks lib rules start seen { session with world := world, mined := mined } taken :=
    tracks.congr same rfl rfl rfl rfl rfl
  rcases run : Session.generateNext lib (honest lib rules) confirm session with ⟨result, reached⟩
  rw [run] at turn
  cases turn with
  | unmined mining =>
      have moved := mineOne_sameNode lib rules session.wallet.tip (session.wallet.height + 1)
        session.wallet.lastTime lib.anyoneCanSpend confirm (.default lib) session.world
      rw [mining] at moved
      exact still moved
  | unserialized mining refused => exact still mining.sameNode
  | refused submitted refusal =>
      obtain ⟨before, octets, next, serialized, answered⟩ := submitted
      rw [submitBlock_honest laws serialized] at answered
      split at answered
      · cases answered
        exact absurd rfl (refusal .null rfl)
      · cases answered
        exact still next.sameNode
  | unread submitted added failed =>
      -- an honest node answers the read of its mempool
      obtain ⟨connects, node⟩ := submitted.connects laws
      obtain ⟨other, others, can⟩ := ChainNode.connects_spec laws connects
      have valid := tracks.valid.connect laws can
      rw [← node] at valid
      rw [mempoolSpends_honest laws valid] at failed
      cases failed
  | headless submitted read empty =>
      obtain ⟨before, next⟩ := submitted.mined
      obtain ⟨built, -, transactions⟩ := next.coinbase laws.blocks
      rw [empty] at transactions
      cases transactions
  | recorded submitted read transactions =>
      exact tracks.recorded laws distinct parents submitted read transactions

theorem Tracks.generateLoop (laws : ChainLaws lib rules) (count : Nat) :
    ∀ {confirm : List Tx} {session : Session ChainWorld},
      Tracks lib rules start seen session taken →
      (confirm.map lib.txId).Nodup → ParentsFirst lib confirm →
      Tracks lib rules start seen
        (generateLoop lib (honest lib rules) count confirm session).2 taken := by
  induction count with
  | zero => exact fun tracks _ _ => tracks
  | succ count ih =>
      intro confirm session tracks distinct parents
      have first := tracks.generateNext laws distinct parents
      rcases run : Session.generateNext lib (honest lib rules) confirm session with
        ⟨error | hash, middle⟩
      · rw [run] at first
        rw [generateLoop_of_error run]
        exact first
      · rw [run] at first
        rw [generateLoop_of_ok run]
        exact ih first List.nodup_nil trivial

/-! ## Every call -/

theorem Tracks.madeThenSent {α β : Type} {make : Action (Session ChainWorld) WalletRaised α}
    {next : α → Action (Session ChainWorld) WalletRaised β} {outpoints : List OutPoint}
    (tracks : Tracks lib rules start seen session taken)
    (takes : Takes outpoints session (make session).2)
    (sends : ∀ value middle, Tracks lib rules start seen middle (taken ++ outpoints) →
      Tracks lib rules start seen (next value middle).2 (taken ++ outpoints)) :
    Tracks lib rules start seen ((make >>= next) session).2 (taken ++ outpoints) := by
  have made := tracks.takes takes
  rw [Action.bind_apply]
  rcases run : make session with ⟨error | value, middle⟩
  · rw [run] at made
    exact made
  · rw [run] at made
    exact sends value middle made

end Session

def Call.Ordered (lib : Btclib) : Call → Prop
  | .generate _ confirm => (confirm.map lib.txId).Nodup ∧ ParentsFirst lib confirm
  | _ => True

namespace Session

variable {lib : Btclib} {rules : NodeRules} {start : ChainNode} {seen : List (List Octet)}
  {session : Session ChainWorld} {taken : List OutPoint}

theorem Tracks.perform (tracks : Tracks lib rules start seen session taken)
    (laws : ChainLaws lib rules)
    {call : Call} (ordered : call.Ordered lib) :
    Tracks lib rules start seen (perform lib (honest lib rules) call session)
      (taken ++ call.takes session.wallet) := by
  have distinct := tracks.caches.distinct
  cases call with
  | generate count confirm =>
      have mined := Tracks.generateLoop laws count.toNat tracks ordered.1 ordered.2
      exact (List.append_nil taken).symm ▸ mined
  | resync => exact (List.append_nil taken).symm ▸ tracks.resync laws
  | getUtxo txid vout markAsSpent confirmedOnly =>
      exact tracks.takes (getUtxo_takes distinct txid vout markAsSpent confirmedOnly)
  | getUtxos includeImmatureCoinbase markAsSpent confirmedOnly =>
      exact tracks.takes
        (getUtxos_takes includeImmatureCoinbase markAsSpent confirmedOnly session)
  | createSelfTransfer options => exact tracks.takes (createSelfTransfer_takes distinct lib options)
  | createSelfTransferMulti options =>
      exact tracks.takes (createSelfTransferMulti_takes distinct lib options)
  | createSelfTransferChain chainLength utxoToSpend =>
      exact tracks.takes (createSelfTransferChain_takes distinct lib chainLength utxoToSpend)
  | sendSelfTransfer options =>
      exact tracks.madeThenSent (createSelfTransfer_takes distinct lib options)
        fun tx _ made => made.send laws tx
  | sendSelfTransferMulti options =>
      exact tracks.madeThenSent (createSelfTransferMulti_takes distinct lib options)
        fun tx _ made => made.send laws tx
  | sendSelfTransferChain chainLength utxoToSpend =>
      apply tracks.madeThenSent (createSelfTransferChain_takes distinct lib chainLength utxoToSpend)
      intro chain middle made
      have sent := Tracks.sendEach laws chain made
      rw [Action.bind_apply]
      rcases run : Session.sendEach lib (honest lib rules) chain middle with ⟨error | value, final⟩
      · rw [run] at sent
        exact sent
      · rw [run] at sent
        exact sent
  | sendTo scriptPubKey value =>
      apply tracks.madeThenSent (picks_takes distinct false)
      intro utxo middle made
      rw [Action.bind_apply]
      rcases prepared : sendToOf lib scriptPubKey value utxo with error | tx
      · exact made
      · exact made.send laws tx

/-! ## Runs -/

/-- The sessions of a wallet constructed on a node anyone has reached, the ids of what its calls
put on the node, and the coins they took: its calls, each confirm list ordered, whatever they
raise, and transactions others broadcast, spending no cached coin. -/
inductive History (lib : Btclib) (rules : NodeRules) :
    Session ChainWorld → List (List Octet) → List OutPoint → Prop where
  | constructed {wallet : Wallet} {before world : ChainWorld} (reached : Reached lib rules before)
      (built : construct (honest lib rules) before = (.ok wallet, world)) :
      History lib rules ⟨wallet, world, [], []⟩ [] []
  | broadcast {session : Session ChainWorld} {seen : List (List Octet)} {taken : List OutPoint}
      (text : String) (params : List Json) (history : History lib rules session seen taken)
      (apart : ∀ tx, (fromHex text).bind rules.decodeTx = some tx →
        ∀ outpoint ∈ tx.spends, outpoint ∉ session.wallet.outpoints) :
      History lib rules { session with world :=
        ((honest lib rules).call "sendrawtransaction" (.str text :: params) session.world).2 }
        seen taken
  | called {session : Session ChainWorld} {seen : List (List Octet)} {taken : List OutPoint}
      (call : Call) (history : History lib rules session seen taken)
      (ordered : call.Ordered lib) :
      History lib rules (Session.perform lib (honest lib rules) call session)
        (seen ++ ChainNode.joined lib session.world.node
          (Session.perform lib (honest lib rules) call session).world.node)
        (taken ++ call.takes session.wallet)

theorem Tracks.broadcast (tracks : Tracks lib rules session.world.node seen session taken)
    (laws : ChainLaws lib rules) (text : String) (params : List Json)
    (apart : ∀ tx, (fromHex text).bind rules.decodeTx = some tx →
      ∀ outpoint ∈ tx.spends, outpoint ∉ session.wallet.outpoints) :
    Tracks lib rules
      ((honest lib rules).call "sendrawtransaction" (.str text :: params) session.world).2.node seen
      { session with world :=
        ((honest lib rules).call "sendrawtransaction" (.str text :: params) session.world).2 }
      taken := by
  have answered : ((honest lib rules).call "sendrawtransaction" (.str text :: params)
      session.world).2 = { session.world with
        node := (session.world.node.sendRawTransaction lib rules text).2 } := rfl
  rw [answered]
  unfold ChainNode.sendRawTransaction
  split
  · exact tracks
  · rename_i tx read
    obtain ⟨octets, -, decoded⟩ := Option.bind_eq_some_iff.mp read
    split
    · rename_i takes
      exact tracks.relayed laws rfl decoded (Bool.and_eq_true_iff.mp takes).1 (apart tx read)
    · exact tracks

theorem Tracks.constructed {wallet : Wallet} {before world : ChainWorld}
    (laws : ChainLaws lib rules) (reached : Reached lib rules before)
    (built : construct (honest lib rules) before = (.ok wallet, world)) :
    Tracks lib rules world.node [] ⟨wallet, world, [], []⟩ [] := by
  have valid := reached.valid laws
  unfold construct at built
  rw [Action.bind_of_ok _ (readTip_honest lib rules before)] at built
  cases built
  have unseen (txId : List Octet) : ¬ (⟨⟨[], ∅, before.node.tip lib, before.node.height,
      before.node.medianTime⟩, before, [], []⟩ : Session ChainWorld).Seen lib txId := by
    rintro (scanned | mined)
    · exact Finset.notMem_empty _ scanned
    · exact List.not_mem_nil mined
  refine ⟨valid, ⟨rfl, rfl, List.nodup_nil, fun utxo => ?_⟩, nofun, nofun, nofun, .refl lib _,
    fun txId => ?_⟩
  · exact ⟨fun cached => absurd cached List.not_mem_nil, fun held => absurd held.2.1 (unseen _)⟩
  · rw [iff_false_left (unseen txId), not_or]
    exact ⟨List.not_mem_nil, ChainNode.not_mem_joined_self txId⟩

/-- A call starts from the node as it is: nothing has joined it since. -/
theorem History.tracks (laws : ChainLaws lib rules)
    (history : History lib rules session seen taken) :
    Tracks lib rules session.world.node seen session taken := by
  induction history with
  | constructed reached built => exact .constructed laws reached built
  | broadcast text params _ apart ih => exact ih.broadcast laws text params apart
  | called call _ ordered ih => exact (ih.perform laws ordered).rebase

/-- After every call, whether it returned or raised, the wallet stands at the node's tip, it has
seen what its calls put on the node, and its cache is, each once, the coins of that which pay its
script, at the value and the height the node holds them at, and that no block and no mempool
transaction spends, less those its calls took. -/
theorem cache_simulates_node (laws : ChainLaws lib rules)
    (history : History lib rules session seen taken) : Simulates lib session seen taken :=
  (history.tracks laws).simulates rfl

/-! ## A run on a node that takes what the rules allow -/

def plainRules : NodeRules where
  encodeTx := PlainLib.tx.write
  decodeTx octets := (PlainLib.tx.read octets).map Prod.fst
  decodeBlock octets := (PlainLib.block.read octets).map Prod.fst
  relays _ _ := true
  rejection _ _ := .rpcError (-26) "bad-txns-inputs-missingorspent"
  connects _ _ := true
  reason _ _ := "bad-txns-inputs-missingorspent"
  clock _ := 1000

theorem plain_laws : ChainLaws PlainLib.lib plainRules where
  blocks := PlainLib.blockLaws
  ids same := by
    obtain rfl := PlainLib.txId_injective same
    exact ⟨rfl, rfl⟩
  coinbase built extra := by
    cases built
    rfl
  pays built extra := by
    cases built
    exact ⟨[], rfl, nofun⟩
  readsTx serialized := by
    cases serialized
    exact PlainLib.parse_serialize _
  readsBlock := by
    intro block octets serialized
    cases serialized
    have reads := PlainLib.block.reads block []
    rw [List.append_nil] at reads
    simp only [plainRules, reads, Option.map_some]
  parses _ := PlainLib.parse_serialize _

def plainStart : ChainWorld := ⟨⟨⟨⟨0x20000000, [], [], 0, [], 0⟩, []⟩, [], []⟩, 0⟩

def plainCoin : Utxo :=
  coinbaseCoin PlainLib.lib 1 (PlainLib.coinbase 1 [0x51] REGTEST_SUBSIDY_HALVING_INTERVAL)

def plainSpend : Tx where
  version := 2
  lockTime := 0
  vin := [⟨plainCoin.outpoint, [], 0, PlainLib.lib.witness⟩]
  vout := [⟨4999999000, PlainLib.lib.anyoneCanSpend⟩]

def plainPerform (call : Call) (session : Session ChainWorld) : Session ChainWorld :=
  perform PlainLib.lib (honest PlainLib.lib plainRules) call session

/-- Two blocks are mined, the first coin is sent on, and a block confirms that. -/
def plainMined : Session ChainWorld :=
  plainPerform (.generate 2 []) ⟨⟨[], ∅, [], 0, 0⟩, plainStart, [], []⟩

def plainSent : Session ChainWorld :=
  plainPerform
    (.sendSelfTransfer { SelfTransfer.default with fee := 1000, utxoToSpend := some plainCoin })
    plainMined

def plainConfirmed : Session ChainWorld := plainPerform (.generate 1 [plainSpend]) plainSent

theorem plain_construct : construct (honest PlainLib.lib plainRules) plainStart =
    (.ok ⟨[], ∅, [], 0, 0⟩, plainStart) := by
  rw [construct, Action.bind_of_ok _ (readTip_honest PlainLib.lib plainRules plainStart)]
  rfl

def plainSeen : List (List Octet) :=
  ChainNode.joined PlainLib.lib plainStart.node plainMined.world.node ++
    ChainNode.joined PlainLib.lib plainMined.world.node plainSent.world.node ++
      ChainNode.joined PlainLib.lib plainSent.world.node plainConfirmed.world.node

theorem plain_called {session reached : Session ChainWorld} {seen : List (List Octet)}
    (history : History PlainLib.lib plainRules session seen []) (call : Call)
    (ordered : call.Ordered PlainLib.lib) (nothing : call.takes session.wallet = [])
    (performs : plainPerform call session = reached) :
    History PlainLib.lib plainRules reached
      (seen ++ ChainNode.joined PlainLib.lib session.world.node reached.world.node) [] := by
  have called := history.called call ordered
  rw [nothing] at called
  rw [← performs]
  exact called

theorem plain_history : History PlainLib.lib plainRules plainConfirmed plainSeen [] := by
  have parents : ParentsFirst PlainLib.lib [plainSpend] := ⟨by decide +kernel, trivial⟩
  have start := History.constructed (.genesis _ 0) plain_construct
  have mined : History PlainLib.lib plainRules plainMined _ [] :=
    plain_called start (.generate 2 []) ⟨List.nodup_nil, trivial⟩ rfl rfl
  have sent : History PlainLib.lib plainRules plainSent _ [] :=
    plain_called mined (.sendSelfTransfer
      { SelfTransfer.default with fee := 1000, utxoToSpend := some plainCoin }) trivial rfl rfl
  have confirmed : History PlainLib.lib plainRules plainConfirmed _ [] :=
    plain_called sent (.generate 1 [plainSpend]) ⟨List.nodup_singleton _, parents⟩ rfl rfl
  rw [List.nil_append] at confirmed
  exact confirmed

theorem cache_simulates_node_plain : Simulates PlainLib.lib plainConfirmed plainSeen [] :=
  cache_simulates_node plain_laws plain_history

end Session

end BitcoinNodeTests
