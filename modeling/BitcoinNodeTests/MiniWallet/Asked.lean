import BitcoinNodeTests.MiniWallet.Calls
import BitcoinNodeTests.MiniWallet.Coins

/-!
# What an honest node answers the wallet

The tip it reads, the height `resync` reads of a coin the node holds, the outpoints it reads
off the mempool, and what a broadcast and a block submitted change: the mempool, the chain,
or nothing.
-/

set_option autoImplicit false

namespace BitcoinNodeTests

open Foundation Wallet

namespace Session

section Asked

variable {lib : Btclib} {rules : NodeRules} {world : ChainWorld}

theorem readTip_honest (lib : Btclib) (rules : NodeRules) (world : ChainWorld) :
    readTip (honest lib rules) world =
      (.ok (world.node.tip lib, world.node.height, world.node.medianTime), world) := by
  simp [readTip, rpcCall, honest, ChainNode.answer, Action.bind_apply, orRaise, Json.asStr,
    Json.asInt, Json.get]

/-! ## The height of a coin -/

theorem outputAmong_of_mem (laws : ChainLaws lib rules) {txs : List Tx} {tx : Tx}
    {outpoint : OutPoint} (member : tx ∈ txs) (named : lib.txId tx = outpoint.txId) :
    outputAmong lib txs outpoint = tx.vout[outpoint.vout]? := by
  unfold outputAmong
  cases found : txs.find? fun tx => lib.txId tx = outpoint.txId with
  | none => exact absurd named (by simpa using List.find?_eq_none.mp found tx member)
  | some other =>
      have same : lib.txId other = outpoint.txId := by simpa using List.find?_some found
      have sameOutputs := (laws.ids (same.trans named.symm)).2
      simp only [Option.bind_eq_bind, Option.bind_some, sameOutputs]

theorem confirmations_of_found {node : ChainNode} (valid : node.Valid lib rules)
    {index : Nat} {block : Block} {tx : Tx} (found : node.blocks[index]? = some block)
    (member : tx ∈ block.transactions) :
    node.confirmations lib (lib.txId tx) = node.blocks.length - index := by
  have unique := valid.unique
  unfold ChainNode.confirmed at unique
  rw [List.map_flatMap, List.nodup_flatMap] at unique
  have apart := List.pairwise_iff_getElem.mp unique.2
  obtain ⟨inside, atIndex⟩ := List.getElem?_eq_some_iff.mp found
  have carried : lib.txId tx ∈ node.blocks[index].transactions.map lib.txId :=
    atIndex ▸ List.mem_map_of_mem member
  have first : node.blocks.findIdx? (fun block => lib.txId tx ∈ block.transactions.map lib.txId) =
      some index := by
    rw [List.findIdx?_eq_some_iff_getElem]
    refine ⟨inside, decide_eq_true carried, ?_⟩
    intro earlier before
    simp only [decide_eq_true_eq]
    intro again
    exact apart earlier index (before.trans inside) inside before again carried
  unfold ChainNode.confirmations
  rw [first]

theorem heightOfAnswer_object (tipHeight : Int) {confirmations : Int} (some : 1 ≤ confirmations)
    {bestBlock : Json} :
    heightOfAnswer tipHeight
        (.object [("bestblock", bestBlock), ("confirmations", .int confirmations)]) =
      .some (tipHeight - confirmations + 1) := by
  have counted : ¬ confirmations < 1 := by omega
  simp [heightOfAnswer, Json.get, List.findRev?, Json.asInt, counted]

/-- `gettxout` gives a coin that the node holds the height it is at. -/
theorem readHeight_honest (laws : ChainLaws lib rules) (valid : world.node.Valid lib rules)
    {utxo : Utxo} (holds : world.node.Holds lib utxo) (regular : utxo.coinbase = false) :
    readHeight (honest lib rules) world.node.height utxo world = (.ok utxo.height, world) := by
  have asked : (honest lib rules).call "gettxout"
      [.str (hex utxo.outpoint.txId), .int utxo.outpoint.vout, .bool false] world =
        (.ok (world.node.getTxOut lib utxo.outpoint false), world) := by
    simp [honest, ChainNode.answer]
  have answered : heightOfAnswer world.node.height (world.node.getTxOut lib utxo.outpoint false) =
      some utxo.height := by
    have unspent := holds.unspent
    obtain ⟨tx, isAt, named, output⟩ := holds.paid
    obtain ⟨outpoint, value, height, coinbase⟩ := utxo
    dsimp only at *
    unfold ChainNode.transactions at unspent
    rw [spentAmong_append, Bool.or_eq_false_iff] at unspent
    unfold ChainNode.getTxOut
    simp only [Bool.false_eq_true, if_false]
    cases isAt with
    | coinbase found transactions => cases regular
    | pooled member =>
        have unknown : outputAmong lib world.node.confirmed outpoint = none := by
          rw [← Option.not_isSome_iff_eq_none]
          intro known
          apply valid.apart tx member
          rw [named]
          exact outputAmong_known known
        rw [unknown]
        rfl
    | @carried index block carrier _ rest found transactions member =>
        have among : tx ∈ block.transactions := transactions ▸ List.mem_cons_of_mem _ member
        have inside := (List.getElem?_eq_some_iff.mp found).1
        rw [outputAmong_of_mem laws (ChainNode.mem_confirmed found among) named, output, ← named,
          confirmations_of_found valid found among]
        dsimp only
        rw [if_neg (Bool.eq_false_iff.mp unspent.1), heightOfAnswer_object _ (by omega),
          ChainNode.height]
        congr 1
        omega
  unfold readHeight
  rw [Action.bind_of_ok _ (rpcCall_of_ok asked), answered]
  rfl

theorem resyncCoin_honest (laws : ChainLaws lib rules) {session : Session ChainWorld}
    (valid : session.world.node.Valid lib rules)
    (height : session.wallet.height = session.world.node.height) {index : Nat} {utxo : Utxo}
    (cached : session.wallet.utxos[index]? = some utxo)
    (holds : session.world.node.Holds lib utxo) :
    resyncCoin (honest lib rules) index utxo session = (.ok (), session) := by
  unfold resyncCoin
  split
  · rfl
  · rename_i regular
    have asked := readHeight_honest laws valid holds (Bool.not_eq_true _ ▸ regular)
    obtain ⟨inside, atIndex⟩ := List.getElem?_eq_some_iff.mp cached
    have same : session.wallet.utxos.set index utxo = session.wallet.utxos := by
      rw [← atIndex, List.set_getElem_self]
    rw [Action.read_bind, height, Action.bind_of_ok _ (onWorld_of asked)]
    simp only [onWallet, Action.update_apply, same]

theorem resyncFrom_honest (laws : ChainLaws lib rules) {session : Session ChainWorld}
    (valid : session.world.node.Valid lib rules)
    (height : session.wallet.height = session.world.node.height)
    (holds : ∀ utxo ∈ session.wallet.utxos, session.world.node.Holds lib utxo)
    (rest : List Utxo) :
    ∀ {index : Nat}, session.wallet.utxos.drop index = rest →
      resyncFrom (honest lib rules) index rest session = (.ok (), session) := by
  induction rest with
  | nil => exact fun _ => rfl
  | cons utxo rest ih =>
      intro index left
      have cached : session.wallet.utxos[index]? = some utxo := by
        rw [← List.head?_drop, left]
        rfl
      have later : session.wallet.utxos.drop (index + 1) = rest := by
        rw [← List.tail_drop, left]
        rfl
      have coin := resyncCoin_honest laws valid height cached
        (holds utxo (List.mem_of_getElem? cached))
      unfold resyncFrom
      rw [Action.bind_of_ok _ coin]
      exact ih later

/-! ## The mempool -/

theorem mempoolTxSpends_honest (laws : ChainLaws lib rules)
    (valid : world.node.Valid lib rules) {tx : Tx} (member : tx ∈ world.node.mempool) :
    mempoolTxSpends lib (honest lib rules) (.str (hex (lib.txId tx))) world =
      (.ok tx.spends, world) := by
  cases found : world.node.mempool.find? fun other => hex (lib.txId other) = hex (lib.txId tx) with
  | none =>
      have differs := List.find?_eq_none.mp found tx member
      simp at differs
  | some other =>
      have sameText := List.find?_some found
      simp only [decide_eq_true_eq] at sameText
      have same := (laws.ids (hex_injective sameText)).1
      obtain ⟨octets, decoded⟩ := valid.decoded other (List.mem_of_find?_eq_some found)
      have asked : (honest lib rules).call "getrawtransaction" [.str (hex (lib.txId tx))] world =
          (.ok (.str (hex (rules.encodeTx other))), world) := by
        have answered : world.node.getRawTransaction lib rules (hex (lib.txId tx)) =
            .ok (.str (hex (rules.encodeTx other))) := by
          rw [ChainNode.getRawTransaction, found]
        rw [← answered]
        rfl
      unfold mempoolTxSpends
      rw [Action.bind_of_ok _ (rpcCall_of_ok asked), Json.asStr,
        Action.bind_of_ok _ (orRaise_some _ _ _), fromHex_hex, Action.bind_of_ok _ (orRaise_some _ _ _), laws.parses decoded,
        Action.bind_of_ok _ (orRaise_some _ _ _), same]
      rfl

theorem mempoolSpendsOf_honest (laws : ChainLaws lib rules)
    (valid : world.node.Valid lib rules) (txs : List Tx)
    (within : ∀ tx ∈ txs, tx ∈ world.node.mempool) :
    mempoolSpendsOf lib (honest lib rules) (txs.map fun tx => .str (hex (lib.txId tx))) world =
      (.ok (spentBy txs), world) := by
  induction txs with
  | nil => rfl
  | cons tx rest ih =>
      have first := mempoolTxSpends_honest laws valid (within tx List.mem_cons_self)
      have later := ih fun other member => within other (List.mem_cons_of_mem _ member)
      rw [List.map_cons, mempoolSpendsOf, Action.bind_of_ok _ first, Action.bind_of_ok _ later]
      rfl

theorem mempoolSpends_honest (laws : ChainLaws lib rules) (valid : world.node.Valid lib rules) :
    mempoolSpends lib (honest lib rules) world = (.ok (spentBy world.node.mempool), world) := by
  have asked : (honest lib rules).call "getrawmempool" [] world =
      (.ok (.array (world.node.mempool.map fun tx => .str (hex (lib.txId tx)))), world) := rfl
  unfold mempoolSpends
  rw [Action.bind_of_ok _ (rpcCall_of_ok asked), Json.asArray,
    Action.bind_of_ok _ (orRaise_some _ _ _)]
  exact mempoolSpendsOf_honest laws valid _ fun _ member => member

/-! ## What changes the node -/

def SameNode (world reached : ChainWorld) : Prop := reached.node = world.node

instance : IsPreorder ChainWorld SameNode where
  refl _ := rfl
  trans _ _ _ first second := second.trans first

theorem orRaise_sameNode {α : Type} (error : WalletRaised) (answer : Option α) :
    Action.Moves SameNode (orRaise error answer : Action ChainWorld WalletRaised α) := by
  apply Action.Moves.unchanged
  intro world
  cases answer with
  | none => rfl
  | some value => rfl

theorem mineOne_sameNode (lib : Btclib) (rules : NodeRules) (tip : List Octet)
    (height minTime : Int) (scriptPubKey : List Octet) (extra : List Tx) (options : MineOptions) :
    Action.Moves SameNode
      (mineOne lib (honest lib rules) tip height minTime scriptPubKey extra options) := by
  unfold mineOne
  apply Action.Moves.bind (orRaise_sameNode _ _)
  intro coinbase
  apply Action.Moves.bind
  · intro world
    cases options.blockTime with
    | none => rfl
    | some time => rfl
  intro time
  split
  · apply Action.Moves.bind (orRaise_sameNode _ _)
    intro candidate
    apply Action.Moves.bind (orRaise_sameNode _ _)
    exact fun _ => Action.Moves.unchanged fun _ => rfl
  · exact Action.Moves.unchanged fun _ => rfl

theorem sendRawTransaction_honest (laws : ChainLaws lib rules) {tx : Tx} {octets : List Octet}
    (serialized : lib.serialize tx = some octets) (world : ChainWorld) :
    (honest lib rules).call "sendrawtransaction" [.str (hex octets), .int 0] world =
      if spendable lib world.node.transactions tx && rules.relays world.node tx then
        (.ok (.str (hex (lib.txId tx))), { world with node := world.node.relay tx })
      else (.error (rules.rejection world.node tx), world) := by
  have answered : (honest lib rules).call "sendrawtransaction" [.str (hex octets), .int 0] world =
      ((world.node.sendRawTransaction lib rules (hex octets)).1,
        { world with node := (world.node.sendRawTransaction lib rules (hex octets)).2 }) := rfl
  rw [answered, ChainNode.sendRawTransaction, fromHex_hex, Option.bind_some,
    laws.readsTx serialized]
  dsimp only
  split
  · rfl
  · rfl

theorem submitBlock_honest (laws : ChainLaws lib rules) {block : Block} {octets : List Octet}
    (serialized : lib.serializeBlock block = some octets) (world : ChainWorld) :
    (honest lib rules).call "submitblock" [.str (hex octets)] world =
      if world.node.connects lib block && rules.connects world.node block then
        (.ok .null, { world with node := world.node.connect lib block })
      else (.ok (.str (rules.reason world.node block)), world) := by
  have answered : (honest lib rules).call "submitblock" [.str (hex octets)] world =
      ((world.node.submitBlock lib rules (hex octets)).1,
        { world with node := (world.node.submitBlock lib rules (hex octets)).2 }) := rfl
  rw [answered, ChainNode.submitBlock, fromHex_hex, Option.bind_some, laws.readsBlock serialized]
  dsimp only
  split
  · rfl
  · rfl

end Asked

end Session

end BitcoinNodeTests
