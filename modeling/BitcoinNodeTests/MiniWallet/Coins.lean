import BitcoinNodeTests.MiniWallet.Confirmed
import BitcoinNodeTests.Node.Chained

/-!
# The coins a node holds for the wallet

A coin as the node sees it: an output paying the wallet's script, in the block of its height
or, at height 0, in the mempool, that nothing of either spends.  As a transaction joins the
mempool or a block the chain, the coins change as the wallet's scan says they do: those spent
go, new ones come, and those a block carries take its height.
-/

set_option autoImplicit false

namespace BitcoinNodeTests

open Foundation Wallet

namespace ChainNode

/-- Where a transaction is: in the mempool, or in the block of a height, as its coinbase or
behind it. -/
inductive At (node : ChainNode) : Tx → Int → Bool → Prop where
  | pooled {tx : Tx} (member : tx ∈ node.mempool) : At node tx 0 false
  | coinbase {index : Nat} {block : Block} {tx : Tx} {rest : List Tx}
      (found : node.blocks[index]? = some block) (transactions : block.transactions = tx :: rest) :
      At node tx (index + 1) true
  | carried {index : Nat} {block : Block} {coinbase tx : Tx} {rest : List Tx}
      (found : node.blocks[index]? = some block)
      (transactions : block.transactions = coinbase :: rest) (member : tx ∈ rest) :
      At node tx (index + 1) false

structure Holds (lib : Btclib) (node : ChainNode) (utxo : Utxo) : Prop where
  paid : ∃ tx, node.At tx utxo.height utxo.coinbase ∧ lib.txId tx = utxo.outpoint.txId ∧
    tx.vout[utxo.outpoint.vout]? = some ⟨utxo.value, lib.anyoneCanSpend⟩
  unspent : spentAmong node.transactions utxo.outpoint = false

variable {lib : Btclib} {rules : NodeRules} {node : ChainNode} {block : Block} {tx : Tx}

theorem mem_confirmed {index : Nat} (found : node.blocks[index]? = some block)
    (member : tx ∈ block.transactions) : tx ∈ node.confirmed :=
  List.mem_flatMap.mpr ⟨block, List.mem_of_getElem? found, member⟩

/-- A transaction placed is one of the chain, or of the mempool at height 0. -/
theorem At.member {height : Int} {coinbase : Bool} (isAt : node.At tx height coinbase) :
    tx ∈ node.confirmed ∨ (tx ∈ node.mempool ∧ height = 0 ∧ coinbase = false) := by
  cases isAt with
  | pooled member => exact .inr ⟨member, rfl, rfl⟩
  | coinbase found transactions =>
      exact .inl (mem_confirmed found (transactions ▸ List.mem_cons_self))
  | carried found transactions member =>
      exact .inl (mem_confirmed found (transactions ▸ List.mem_cons_of_mem _ member))

theorem At.known {height : Int} {coinbase : Bool} (isAt : node.At tx height coinbase) :
    tx ∈ node.transactions := by
  rcases isAt.member with inChain | ⟨inPool, -, -⟩
  · exact List.mem_append_left _ inChain
  · exact List.mem_append_right _ inPool

theorem Holds.known {utxo : Utxo} (holds : node.Holds lib utxo) :
    utxo.outpoint.txId ∈ node.transactions.map lib.txId := by
  obtain ⟨tx, isAt, named, -⟩ := holds.paid
  rw [← named]
  exact List.mem_map_of_mem isAt.known

/-- Nobody spends an output of a transaction that nobody has seen. -/
theorem Valid.unspent_unknown (valid : node.Valid lib rules) {outpoint : OutPoint}
    (unknown : outpoint.txId ∉ node.transactions.map lib.txId) :
    spentAmong node.transactions outpoint = false := by
  rw [← Bool.not_eq_true, spentAmong_iff]
  rintro ⟨tx, member, regular, spent⟩
  apply unknown
  rcases List.mem_append.mp member with inChain | inPool
  · unfold transactions
    rw [List.map_append]
    exact List.mem_append_left _ (valid.chained tx inChain regular outpoint spent)
  · exact valid.pooled tx inPool outpoint spent

/-! ## A transaction joins -/

theorem At.relay {height : Int} {coinbase : Bool} (isAt : node.At tx height coinbase)
    (other : Tx) : (node.relay other).At tx height coinbase := by
  cases isAt with
  | pooled member => exact .pooled (List.mem_append_left _ member)
  | coinbase found transactions => exact .coinbase found transactions
  | carried found transactions member => exact .carried found transactions member

theorem At.of_relay {other : Tx} {height : Int} {coinbase : Bool}
    (isAt : (node.relay other).At tx height coinbase) :
    node.At tx height coinbase ∨ (tx = other ∧ height = 0 ∧ coinbase = false) := by
  cases isAt with
  | pooled member =>
      rcases List.mem_append.mp member with old | new
      · exact .inl (.pooled old)
      · exact .inr ⟨List.mem_singleton.mp new, rfl, rfl⟩
  | coinbase found transactions => exact .inl (.coinbase found transactions)
  | carried found transactions member => exact .inl (.carried found transactions member)

theorem spent_relay (can : spendable lib node.transactions tx) (outpoint : OutPoint) :
    spentAmong (node.relay tx).transactions outpoint = false ↔
      spentAmong node.transactions outpoint = false ∧ outpoint ∉ tx.spends := by
  rw [transactions_relay, spentAmong_append, Bool.or_eq_false_iff]
  have regular := spendable_regular can
  simp [spentAmong, regular]

/-- The coins once `tx` joins the mempool: those it does not spend, and its own. -/
theorem holds_relay (laws : ChainLaws lib rules) (valid : node.Valid lib rules)
    (can : spendable lib node.transactions tx) {utxo : Utxo} :
    (node.relay tx).Holds lib utxo ↔
      (node.Holds lib utxo ∧ utxo.outpoint ∉ tx.spends) ∨ utxo ∈ newUtxos lib tx := by
  constructor
  · rintro ⟨⟨paying, isAt, named, output⟩, unspent⟩
    obtain ⟨unspentBefore, notSpent⟩ := (spent_relay can _).mp unspent
    rcases isAt.of_relay with old | ⟨rfl, height, coinbase⟩
    · exact .inl ⟨⟨⟨paying, old, named, output⟩, unspentBefore⟩, notSpent⟩
    · exact .inr (mem_newUtxos.mpr ⟨named.symm, output, height, coinbase⟩)
  · rintro (⟨⟨⟨paying, isAt, named, output⟩, unspent⟩, notSpent⟩ | isNew)
    · exact ⟨⟨paying, isAt.relay tx, named, output⟩, (spent_relay can _).mpr ⟨unspent, notSpent⟩⟩
    · obtain ⟨named, output, height, coinbase⟩ := mem_newUtxos.mp isNew
      have new := spendable_new laws can
      have isAt : (node.relay tx).At tx utxo.height utxo.coinbase := by
        rw [height, coinbase]
        exact .pooled (List.mem_append_right _ List.mem_cons_self)
      refine ⟨⟨tx, isAt, named.symm, output⟩, (spent_relay can _).mpr ⟨?_, ?_⟩⟩
      · exact valid.unspent_unknown (named ▸ new)
      · intro spent
        have known := spendable_parents can spent
        rw [named] at known
        exact new known

/-! ## A block connects -/

section Connect

variable {coinbase : Tx} {rest : List Tx}

theorem Connects.coinbase_unknown (can : Connects lib node block coinbase rest)
    (laws : ChainLaws lib rules) (valid : node.Valid lib rules) :
    lib.txId coinbase ∉ node.transactions.map lib.txId := by
  unfold ChainNode.transactions
  rw [List.map_append, List.mem_append]
  rintro (inChain | inPool)
  · exact can.new inChain
  · obtain ⟨tx, member, same⟩ := List.mem_map.mp inPool
    have regular := valid.regular tx member
    rw [laws.isCoinbase_eq same, can.isCoinbase] at regular
    cases regular

theorem Connects.coinbase_apart (can : Connects lib node block coinbase rest)
    (laws : ChainLaws lib rules) : lib.txId coinbase ∉ rest.map lib.txId := by
  intro again
  obtain ⟨tx, member, same⟩ := List.mem_map.mp again
  have regular := can.rest.regular tx member
  rw [laws.isCoinbase_eq same, can.isCoinbase] at regular
  cases regular

/-- What is spent once a block connects: what was, and what its transactions spend. -/
theorem spent_connect (laws : ChainLaws lib rules) (can : Connects lib node block coinbase rest)
    (outpoint : OutPoint) :
    spentAmong (node.connect lib block).transactions outpoint = false ↔
      spentAmong node.transactions outpoint = false ∧ outpoint ∉ spentBy rest := by
  rw [← not_iff_not, Bool.not_eq_false, not_and_or, Bool.not_eq_false, not_not, spentAmong_iff,
    spentAmong_iff]
  unfold transactions
  rw [confirmed_connect, can.transactions]
  constructor
  · rintro ⟨tx, member, regular, spent⟩
    rcases List.mem_append.mp member with inChain | inPool
    · rcases List.mem_append.mp inChain with before | carried
      · exact .inl ⟨tx, List.mem_append_left _ before, regular, spent⟩
      · rcases List.mem_cons.mp carried with rfl | carried
        · rw [can.isCoinbase] at regular
          cases regular
        · exact .inr (List.mem_flatMap.mpr ⟨tx, carried, spent⟩)
    · exact .inl ⟨tx, List.mem_append_right _ (List.mem_of_mem_filter inPool), regular, spent⟩
  · have byBlock {tx : Tx} (carried : tx ∈ rest) (spent : outpoint ∈ tx.spends) :
        ∃ tx ∈ (node.confirmed ++ coinbase :: rest) ++ (node.connect lib block).mempool,
          tx.isCoinbase = false ∧ outpoint ∈ tx.spends :=
      ⟨tx, List.mem_append_left _ (List.mem_append_right _ (List.mem_cons_of_mem _ carried)),
        can.rest.regular tx carried, spent⟩
    rintro (⟨tx, member, regular, spent⟩ | spent)
    · rcases List.mem_append.mp member with before | inPool
      · exact ⟨tx, List.mem_append_left _ (List.mem_append_left _ before), regular, spent⟩
      · by_cases carried : lib.txId tx ∈ block.transactions.map lib.txId
        · -- the block's own copy of it spends the same
          obtain ⟨copy, copied, same⟩ := List.mem_map.mp carried
          rw [can.transactions] at copied
          rcases List.mem_cons.mp copied with rfl | copied
          · rw [← laws.isCoinbase_eq same, can.isCoinbase] at regular
            cases regular
          · exact byBlock copied ((laws.ids same).1 ▸ spent)
        · exact ⟨tx, List.mem_append_right _ (List.mem_filter.mpr
            ⟨inPool, decide_eq_true carried⟩), regular, spent⟩
    · obtain ⟨tx, carried, spent⟩ := List.mem_flatMap.mp spent
      exact byBlock carried spent

theorem At.connect (laws : ChainLaws lib rules) (valid : node.Valid lib rules)
    (can : Connects lib node block coinbase rest) {height : Int} {isCoinbase : Bool}
    (isAt : node.At tx height isCoinbase) (notCarried : lib.txId tx ∉ rest.map lib.txId) :
    (node.connect lib block).At tx height isCoinbase := by
  have still {index : Nat} {other : Block} (found : node.blocks[index]? = some other) :
      (node.connect lib block).blocks[index]? = some other :=
    List.getElem?_append_left (List.getElem?_eq_some_iff.mp found).1 ▸ found
  cases isAt with
  | pooled member =>
      refine .pooled (List.mem_filter.mpr ⟨member, decide_eq_true ?_⟩)
      rw [can.transactions, List.map_cons, List.mem_cons, not_or]
      refine ⟨?_, notCarried⟩
      intro same
      have regular := valid.regular tx member
      rw [laws.isCoinbase_eq same, can.isCoinbase] at regular
      cases regular
  | coinbase found transactions => exact .coinbase (still found) transactions
  | carried found transactions member => exact .carried (still found) transactions member

theorem last_block (lib : Btclib) (block : Block) (node : ChainNode) :
    (node.connect lib block).blocks[node.blocks.length]? = some block := by
  simp [ChainNode.connect]

theorem At.of_connect (can : Connects lib node block coinbase rest)
    {height : Int} {isCoinbase : Bool} (isAt : (node.connect lib block).At tx height isCoinbase) :
    (node.At tx height isCoinbase ∧ lib.txId tx ∉ rest.map lib.txId) ∨
      (height = node.height + 1 ∧ isCoinbase = true ∧ tx = coinbase) ∨
      (height = node.height + 1 ∧ isCoinbase = false ∧ tx ∈ rest) := by
  have split {index : Nat} {other : Block}
      (found : (node.connect lib block).blocks[index]? = some other) :
      node.blocks[index]? = some other ∨ (index = node.blocks.length ∧ other = block) := by
    unfold ChainNode.connect at found
    dsimp only at found
    rw [List.getElem?_append] at found
    split at found
    · exact .inl found
    · obtain ⟨small, rfl⟩ := List.getElem?_eq_some_iff.mp found
      rw [List.length_singleton] at small
      exact .inr ⟨by omega, List.getElem_singleton _⟩
  have apart {index : Nat} {other : Block} (found : node.blocks[index]? = some other)
      (member : tx ∈ other.transactions) : lib.txId tx ∉ rest.map lib.txId := by
    intro carried
    obtain ⟨copy, copied, same⟩ := List.mem_map.mp carried
    apply can.rest.new copy copied
    rw [same]
    exact List.mem_map_of_mem (mem_confirmed found member)
  cases isAt with
  | pooled member =>
      obtain ⟨before, notCarried⟩ := List.mem_filter.mp member
      rw [decide_eq_true_iff, can.transactions] at notCarried
      exact .inl ⟨.pooled before, fun carried => notCarried (List.mem_cons_of_mem _ carried)⟩
  | coinbase found transactions =>
      rcases split found with before | ⟨rfl, rfl⟩
      · exact .inl ⟨.coinbase before transactions,
          apart before (transactions ▸ List.mem_cons_self)⟩
      · rw [can.transactions] at transactions
        cases transactions
        exact .inr (.inl ⟨rfl, rfl, rfl⟩)
  | carried found transactions member =>
      rcases split found with before | ⟨rfl, rfl⟩
      · exact .inl ⟨.carried before transactions member,
          apart before (transactions ▸ List.mem_cons_of_mem _ member)⟩
      · rw [can.transactions] at transactions
        cases transactions
        exact .inr (.inr ⟨rfl, rfl, member⟩)

structure PaidBy (lib : Btclib) (coinbase : Tx) (height : Int) (utxo : Utxo) : Prop where
  named : utxo.outpoint.txId = lib.txId coinbase
  output : coinbase.vout[utxo.outpoint.vout]? = some ⟨utxo.value, lib.anyoneCanSpend⟩
  height : utxo.height = height
  isCoinbase : utxo.coinbase = true

/-- A coin of a transaction new to the node, once a block of that height carries it. -/
def NewlyCarried (lib : Btclib) (node : ChainNode) (rest : List Tx) (utxo : Utxo) : Prop :=
  ∃ tx ∈ rest, lib.txId tx ∉ node.transactions.map lib.txId ∧ ∃ new ∈ newUtxos lib tx,
    new.outpoint ∉ spentBy rest ∧ utxo = { new with height := node.height + 1 }

theorem Connects.pooled (can : Connects lib node block coinbase rest) {carried : Tx}
    (member : carried ∈ rest) (known : lib.txId carried ∈ node.transactions.map lib.txId) :
    ∃ tx ∈ node.mempool, lib.txId tx = lib.txId carried := by
  unfold ChainNode.transactions at known
  rw [List.map_append] at known
  rcases List.mem_append.mp known with inChain | inPool
  · exact absurd inChain (can.rest.new carried member)
  · exact List.mem_map.mp inPool

/-- A coin of a transaction that the block carries is one of the mempool, and no coinbase's. -/
theorem Holds.of_carried (laws : ChainLaws lib rules) (can : Connects lib node block coinbase rest)
    {utxo : Utxo} (holds : node.Holds lib utxo) {carried : Tx} (member : carried ∈ rest)
    (same : utxo.outpoint.txId = lib.txId carried) : utxo ∈ newUtxos lib carried := by
  obtain ⟨tx, isAt, named, output⟩ := holds.paid
  rw [(laws.ids (named.trans same)).2] at output
  rcases isAt.member with inChain | ⟨-, height, isCoinbase⟩
  · have known : lib.txId carried ∈ node.confirmed.map lib.txId :=
      same ▸ named ▸ List.mem_map_of_mem inChain
    exact absurd known (can.rest.new carried member)
  · exact mem_newUtxos.mpr ⟨same, output, height, isCoinbase⟩

/-- The coins once a block connects: those its transactions do not spend, at its height where
it carries them; the new ones of its own transactions; and its coinbase's. -/
theorem holds_connect (laws : ChainLaws lib rules) (valid : node.Valid lib rules)
    (can : Connects lib node block coinbase rest) {utxo : Utxo} :
    (node.connect lib block).Holds lib utxo ↔
      (∃ old, node.Holds lib old ∧ old.outpoint ∉ spentBy rest ∧
        utxo = confirmedTo lib (node.height + 1) rest old) ∨
      NewlyCarried lib node rest utxo ∨ PaidBy lib coinbase (node.height + 1) utxo := by
  have carriedAt {tx : Tx} (member : tx ∈ rest) :
      (node.connect lib block).At tx (node.height + 1) false :=
    .carried (last_block lib block node) can.transactions member
  constructor
  · rintro ⟨⟨tx, isAt, named, output⟩, unspent⟩
    obtain ⟨unspentBefore, notSpent⟩ := (spent_connect laws can _).mp unspent
    rcases isAt.of_connect can with
      ⟨before, notCarried⟩ | ⟨height, isCoinbase, rfl⟩ | ⟨height, isCoinbase, member⟩
    · refine .inl ⟨utxo, ⟨⟨tx, before, named, output⟩, unspentBefore⟩, notSpent, ?_⟩
      rw [named] at notCarried
      exact (if_neg notCarried).symm
    · exact .inr (.inr ⟨named.symm, output, height, isCoinbase⟩)
    · have carries : utxo.outpoint.txId ∈ rest.map lib.txId := named ▸ List.mem_map_of_mem member
      by_cases known : lib.txId tx ∈ node.transactions.map lib.txId
      · obtain ⟨copy, inPool, same⟩ := can.pooled member known
        refine .inl ⟨{ utxo with height := 0 }, ⟨⟨copy, ?_, same.trans named, ?_⟩, unspentBefore⟩,
          notSpent, ?_⟩
        · rw [isCoinbase]
          exact .pooled inPool
        · rw [(laws.ids same).2]
          exact output
        · rw [confirmedTo, if_pos carries, ← height]
      · refine .inr (.inl ⟨tx, member, known, { utxo with height := 0 }, ?_, notSpent, ?_⟩)
        · exact mem_newUtxos.mpr ⟨named.symm, output, rfl, isCoinbase⟩
        · rw [← height]
  · rintro (⟨old, holds, notSpent, rfl⟩ | ⟨tx, member, unknown, new, isNew, notSpent, rfl⟩ | paid)
    · have unspent := (spent_connect laws can old.outpoint).mpr ⟨holds.unspent, notSpent⟩
      by_cases carries : old.outpoint.txId ∈ rest.map lib.txId
      · obtain ⟨copy, member, same⟩ := List.mem_map.mp carries
        obtain ⟨-, output, -, isCoinbase⟩ :=
          mem_newUtxos.mp (holds.of_carried laws can member same.symm)
        rw [confirmedTo, if_pos carries]
        refine ⟨⟨copy, ?_, same, output⟩, unspent⟩
        dsimp only
        rw [isCoinbase]
        exact carriedAt member
      · obtain ⟨tx, isAt, named, output⟩ := holds.paid
        rw [confirmedTo, if_neg carries]
        exact ⟨⟨tx, isAt.connect laws valid can (named ▸ carries), named, output⟩, unspent⟩
    · obtain ⟨named, output, -, isCoinbase⟩ := mem_newUtxos.mp isNew
      refine ⟨⟨tx, ?_, named.symm, output⟩, (spent_connect laws can _).mpr ⟨?_, notSpent⟩⟩
      · dsimp only
        rw [isCoinbase]
        exact carriedAt member
      · exact valid.unspent_unknown (named ▸ unknown)
    · obtain ⟨named, output, height, isCoinbase⟩ := paid
      refine ⟨⟨coinbase, ?_, named.symm, output⟩, (spent_connect laws can _).mpr ⟨?_, ?_⟩⟩
      · rw [height, isCoinbase]
        exact .coinbase (last_block lib block node) can.transactions
      · exact valid.unspent_unknown (named ▸ can.coinbase_unknown laws valid)
      · intro spent
        obtain ⟨tx, member, spends⟩ := List.mem_flatMap.mp spent
        have parent := can.rest.parents tx member _ spends
        rw [named, List.map_append] at parent
        rcases List.mem_append.mp parent with before | within
        · exact can.new before
        · exact can.coinbase_apart laws within

end Connect

end ChainNode

end BitcoinNodeTests
