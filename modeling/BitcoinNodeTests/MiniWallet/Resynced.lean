import BitcoinNodeTests.MiniWallet.Asked

/-!
# What `resync` leaves

The tip fields are written before the first coin is asked about, and each coin as soon as its
answer is read, so that an answer it cannot use leaves the new tip and the heights read until
then.  In every run the coins differ from what they were in their heights alone.
-/

set_option autoImplicit false

namespace BitcoinNodeTests

open Foundation

/-- The same coin, at another height where it is no coinbase. -/
structure Utxo.Reheighted (old new : Utxo) : Prop where
  same : new = { old with height := new.height }
  coinbase : old.coinbase → new = old

theorem Utxo.Reheighted.refl (utxo : Utxo) : utxo.Reheighted utxo := ⟨rfl, fun _ => rfl⟩

namespace Session

variable {ω : Type} {env : Environment ω}

def leaving (session : Session ω) (world : ω) (utxos : List Utxo) : Session ω :=
  { session with world := world, wallet := { session.wallet with utxos := utxos } }

/-- One coin of the loop: it is left alone, or takes the height read, or what was read
raises. -/
theorem resyncCoin_cases (session : Session ω) (index : Nat) (utxo : Utxo) :
    (utxo.coinbase ∧ resyncCoin env index utxo session = (.ok (), session)) ∨
    utxo.coinbase = false ∧ ∃ world,
      (∃ height, readHeight env session.wallet.height utxo session.world = (.ok height, world) ∧
        resyncCoin env index utxo session = (.ok (), session.leaving world
          (session.wallet.utxos.set index { utxo with height := height }))) ∨
      ∃ raised, resyncCoin env index utxo session =
        (.error raised, session.leaving world session.wallet.utxos) := by
  unfold resyncCoin
  cases isCoinbase : utxo.coinbase with
  | true => exact .inl ⟨rfl, rfl⟩
  | false =>
      refine .inr ⟨rfl, ?_⟩
      simp only [Bool.false_eq_true, if_false, Action.read_bind]
      rcases run : readHeight env session.wallet.height utxo session.world with ⟨raised | height, world⟩
      · refine ⟨world, .inr ⟨raised, ?_⟩⟩
        rw [Action.bind_of_error _ (onWorld_of run)]
        rfl
      · refine ⟨world, .inl ⟨height, rfl, ?_⟩⟩
        rw [Action.bind_of_ok _ (onWorld_of run)]
        rfl

/-- How the loop over `rest` ended, `done` being the coins it got through. -/
def Ended (rest done : List Utxo) : Except WalletRaised Unit → Prop
  | .ok () => done.length = rest.length
  | .error _ => ∃ utxo, rest[done.length]? = some utxo ∧ utxo.coinbase = false

theorem Ended.cons {rest done : List Utxo} {result : Except WalletRaised Unit}
    (ended : Ended rest done result) (utxo new : Utxo) :
    Ended (utxo :: rest) (new :: done) result := by
  cases result with
  | ok _ => exact congrArg Nat.succ ended
  | error raised => exact ended

/-- The coins before the one that raised have taken their heights, and it and those after
are as they were. -/
theorem resyncFrom_leaves (rest : List Utxo) :
    ∀ (before : List Utxo) (session : Session ω), session.wallet.utxos = before ++ rest →
      ∃ world done,
        (resyncFrom env before.length rest session).2 =
          session.leaving world (before ++ done ++ rest.drop done.length) ∧
        List.Forall₂ Utxo.Reheighted (rest.take done.length) done ∧
        Ended rest done (resyncFrom env before.length rest session).1 := by
  induction rest with
  | nil =>
      intro before session cached
      refine ⟨session.world, [], ?_, .nil, rfl⟩
      rw [List.drop_nil, List.append_nil, ← cached]
      rfl
  | cons utxo rest ih =>
      intro before session cached
      have goOn : ∀ (world : ω) (new : Utxo), utxo.Reheighted new →
          resyncCoin env before.length utxo session =
            (.ok (), session.leaving world (before ++ new :: rest)) →
          ∃ world done,
            (resyncFrom env before.length (utxo :: rest) session).2 =
              session.leaving world (before ++ done ++ (utxo :: rest).drop done.length) ∧
            List.Forall₂ Utxo.Reheighted ((utxo :: rest).take done.length) done ∧
            Ended (utxo :: rest) done (resyncFrom env before.length (utxo :: rest) session).1 := by
        intro world new reheighted coin
        obtain ⟨final, done, left, changed, ended⟩ := ih (before ++ [new])
          (session.leaving world (before ++ new :: rest)) (by simp [leaving])
        rw [List.length_append, List.length_singleton] at left ended
        refine ⟨final, new :: done, ?_, .cons reheighted changed, ?_⟩
        · rw [resyncFrom, Action.bind_of_ok _ coin, left]
          simp [leaving]
        · rw [resyncFrom, Action.bind_of_ok _ coin]
          exact ended.cons utxo new
      rcases @resyncCoin_cases _ env session before.length utxo with
        ⟨_, coin⟩ | ⟨regular, world, ⟨height, _, coin⟩ | ⟨raised, coin⟩⟩
      · refine goOn session.world utxo (.refl utxo) ?_
        rw [coin, leaving, ← cached]
      · refine goOn world { utxo with height := height } ⟨rfl, ?_⟩ ?_
        · exact fun coinbase => absurd (regular.symm.trans coinbase) Bool.false_ne_true
        · rw [coin, cached, List.set_append_right _ _ (Nat.le_refl _), Nat.sub_self, List.set_cons_zero]
      · refine ⟨world, [], ?_, .nil, ?_⟩
        · rw [resyncFrom, Action.bind_of_error _ coin, cached, List.append_nil]
          rfl
        · rw [resyncFrom, Action.bind_of_error _ coin]
          exact ⟨utxo, rfl, regular⟩

def retipped (session : Session ω) (world : ω) (tip : List Octet × Int × Int)
    (utxos : List Utxo) : Session ω :=
  { session with
    world := world
    wallet := { session.wallet with
      utxos := utxos, tip := tip.1, height := tip.2.1, lastTime := tip.2.2 } }

theorem resync_of_error {session : Session ω} {world : ω} {raised : WalletRaised}
    (read : readTip env session.world = (.error raised, world)) :
    resync env session = (.error raised, { session with world := world }) := by
  rw [resync, Action.bind_of_error _ (onWorld_of read)]

theorem resync_of_tip {session : Session ω} {world : ω} {tip : List Octet × Int × Int}
    (read : readTip env session.world = (.ok tip, world)) :
    resync env session = resyncFrom env 0 session.wallet.utxos
      (session.retipped world tip session.wallet.utxos) := by
  rw [resync, Action.bind_of_ok _ (onWorld_of read)]
  rfl

theorem resync_leaves {session : Session ω} {world : ω} {tip : List Octet × Int × Int}
    (read : readTip env session.world = (.ok tip, world)) :
    ∃ world done,
      (resync env session).2 =
        session.retipped world tip (done ++ session.wallet.utxos.drop done.length) ∧
      List.Forall₂ Utxo.Reheighted (session.wallet.utxos.take done.length) done ∧
      Ended session.wallet.utxos done (resync env session).1 := by
  rw [resync_of_tip read]
  exact @resyncFrom_leaves _ env session.wallet.utxos [] _ rfl

end Session

/-! ## One fixed chain behind the answers -/

namespace ChainNode

variable (lib : Btclib)

/-- The UTXO set has the outpoint: a block pays it, and no block spends it. -/
def HasUnspent (outpoint : OutPoint) (node : ChainNode) : Prop :=
  (outputAmong lib node.confirmed outpoint).isSome ∧ spentAmong node.confirmed outpoint = false

instance (outpoint : OutPoint) (node : ChainNode) : Decidable (node.HasUnspent lib outpoint) :=
  inferInstanceAs (Decidable (_ ∧ _))

/-- The height of the block that holds the outpoint, the genesis block being at `0`. -/
def heightHolding (outpoint : OutPoint) (node : ChainNode) : Int :=
  match node.blocks.findIdx? fun block => outpoint.txId ∈ block.transactions.map lib.txId with
  | some index => index + 1
  | none => 0

/-- A cached coin at the height of the block holding it, where the UTXO set has it. -/
def reheight (node : ChainNode) (utxo : Utxo) : Utxo :=
  if utxo.coinbase then utxo
  else { utxo with
    height := if node.HasUnspent lib utxo.outpoint then node.heightHolding lib utxo.outpoint else 0 }

end ChainNode

section Fixed

variable {ω : Type} {lib : Btclib} {node : ChainNode} {env : Environment ω} {stays : ω → Prop}

/-- While `stays` holds of the world the call is answered with what fits, and it goes on to
hold. -/
def Answers (env : Environment ω) (stays : ω → Prop) (method : String) (params : List Json)
    (fits : Json → Prop) : Prop :=
  ∀ world, stays world → ∃ answer reached,
    env.call method params world = (.ok answer, reached) ∧ fits answer ∧ stays reached

/-- Every answer `resync` asks for is of the one chain. -/
structure AnswersFrom (lib : Btclib) (node : ChainNode) (env : Environment ω)
    (stays : ω → Prop) : Prop where
  bestBlockHash : Answers env stays "getbestblockhash" [] (· = .str (hex (node.tip lib)))
  blockCount : Answers env stays "getblockcount" [] (· = .int node.height)
  chainInfo : Answers env stays "getblockchaininfo" []
    fun answer => answer.get "mediantime" = some (.int node.medianTime)
  txOut : ∀ outpoint : OutPoint,
    Answers env stays "gettxout" [.str (hex outpoint.txId), .int outpoint.vout, .bool false]
      fun answer =>
        (node.HasUnspent lib outpoint →
          answer.get "confirmations" = some (.int (node.confirmations lib outpoint.txId))) ∧
        (¬ node.HasUnspent lib outpoint → answer = .null)

theorem honest_answersFrom (lib : Btclib) (rules : NodeRules) (node : ChainNode) :
    AnswersFrom lib node (honest lib rules) fun world => world.node = node where
  bestBlockHash world same := ⟨_, world, rfl, by rw [same], same⟩
  blockCount world same := ⟨_, world, rfl, by rw [same], same⟩
  chainInfo world same := by
    refine ⟨_, world, rfl, ?_, same⟩
    rw [same]
    rfl
  txOut outpoint world same := by
    refine ⟨world.node.getTxOut lib outpoint false, world, by simp [honest, ChainNode.answer], ?_,
      same⟩
    rw [same]
    simp only [ChainNode.getTxOut, ChainNode.HasUnspent, Bool.false_eq_true, if_false]
    cases outputAmong lib node.confirmed outpoint with
    | none => simp
    | some txOut =>
        cases spentAmong node.confirmed outpoint with
        | true => simp
        | false => simp [Json.get, List.findRev?]

theorem readTip_fixed (fixed : AnswersFrom lib node env stays) {world : ω} (before : stays world) :
    ∃ reached, stays reached ∧
      readTip env world = (.ok (node.tip lib, node.height, node.medianTime), reached) := by
  obtain ⟨_, first, hashed, rfl, afterHash⟩ := fixed.bestBlockHash world before
  obtain ⟨_, second, counted, rfl, afterCount⟩ := fixed.blockCount first afterHash
  obtain ⟨chainInfo, third, informed, median, afterInfo⟩ := fixed.chainInfo second afterCount
  refine ⟨third, afterInfo, ?_⟩
  rw [readTip, Action.bind_of_ok _ (rpcCall_of_ok hashed), Json.asStr,
    Action.bind_of_ok _ (orRaise_some _ _ _), Action.bind_of_ok _ (rpcCall_of_ok counted),
    Json.asInt, Action.bind_of_ok _ (orRaise_some _ _ _),
    Action.bind_of_ok _ (rpcCall_of_ok informed), median, Option.bind_some, Json.asInt,
    Action.bind_of_ok _ (orRaise_some _ _ _), fromHex_hex, Action.bind_of_ok _ (orRaise_some _ _ _)]
  rfl

namespace Session

/-- What `gettxout` counts from the tip down is the height counted from the genesis block up. -/
theorem heightOfAnswer_fixed {outpoint : OutPoint} {answer : Json}
    (unspent : node.HasUnspent lib outpoint →
      answer.get "confirmations" = some (.int (node.confirmations lib outpoint.txId)))
    (gone : ¬ node.HasUnspent lib outpoint → answer = .null) :
    heightOfAnswer node.height answer =
      some (if node.HasUnspent lib outpoint then node.heightHolding lib outpoint else 0) := by
  by_cases has : node.HasUnspent lib outpoint
  · have answered := unspent has
    obtain ⟨block, isBlock, carried⟩ : ∃ block ∈ node.blocks,
        outpoint.txId ∈ block.transactions.map lib.txId := by
      obtain ⟨tx, member, named⟩ := List.mem_map.mp (outputAmong_known has.1)
      obtain ⟨block, isBlock, among⟩ := List.mem_flatMap.mp member
      exact ⟨block, isBlock, List.mem_map.mpr ⟨tx, among, named⟩⟩
    obtain ⟨index, found⟩ : ∃ index, node.blocks.findIdx? (fun block =>
        outpoint.txId ∈ block.transactions.map lib.txId) = some index := by
      rw [← Option.isSome_iff_exists, List.findIdx?_isSome, List.any_eq_true]
      exact ⟨block, isBlock, decide_eq_true carried⟩
    have inside := (List.findIdx?_eq_some_iff_getElem.mp found).1
    have counted : node.confirmations lib outpoint.txId = node.blocks.length - index := by
      rw [ChainNode.confirmations, found]
    have positive : ¬ node.confirmations lib outpoint.txId < 1 := by omega
    have height : node.height - node.confirmations lib outpoint.txId + 1 =
        node.heightHolding lib outpoint := by
      rw [ChainNode.heightHolding, found, counted, ChainNode.height]
      dsimp only
      omega
    rw [if_pos has, ← height]
    cases answer with
    | null => cases answered
    | object fields =>
        rw [heightOfAnswer, answered, Option.bind_some, Json.asInt]
        · dsimp only
          rw [if_neg positive]
        · intro isNull
          cases isNull
    | _ => cases answered
  · rw [if_neg has, gone has, heightOfAnswer]

theorem resyncCoin_fixed (fixed : AnswersFrom lib node env stays) {session : Session ω}
    (height : session.wallet.height = node.height) (before : stays session.world) {index : Nat}
    {utxo : Utxo} (cached : session.wallet.utxos[index]? = some utxo) :
    ∃ world, stays world ∧ resyncCoin env index utxo session =
      (.ok (), session.leaving world (session.wallet.utxos.set index (node.reheight lib utxo))) := by
  unfold resyncCoin ChainNode.reheight
  cases utxo.coinbase with
  | true =>
      obtain ⟨inside, atIndex⟩ := List.getElem?_eq_some_iff.mp cached
      refine ⟨session.world, before, ?_⟩
      rw [if_pos rfl, if_pos rfl, ← atIndex, List.set_getElem_self]
      rfl
  | false =>
      obtain ⟨answer, reached, asked, ⟨unspent, gone⟩, after⟩ :=
        fixed.txOut utxo.outpoint session.world before
      have read : readHeight env node.height utxo session.world =
          (.ok (if node.HasUnspent lib utxo.outpoint then
            node.heightHolding lib utxo.outpoint else 0), reached) := by
        rw [readHeight, Action.bind_of_ok _ (rpcCall_of_ok asked),
          heightOfAnswer_fixed unspent gone, orRaise_some]
      refine ⟨reached, after, ?_⟩
      rw [if_neg nofun, if_neg nofun, Action.read_bind, height, Action.bind_of_ok _ (onWorld_of read)]
      rfl

theorem resyncFrom_fixed (fixed : AnswersFrom lib node env stays) (rest : List Utxo) :
    ∀ (before : List Utxo) (session : Session ω), session.wallet.utxos = before ++ rest →
      session.wallet.height = node.height → stays session.world →
      ∃ world, resyncFrom env before.length rest session =
        (.ok (), session.leaving world (before ++ rest.map (node.reheight lib))) := by
  induction rest with
  | nil =>
      intro before session cached _ _
      exact ⟨session.world, by rw [List.map_nil, ← cached]; rfl⟩
  | cons utxo rest ih =>
      intro before session cached height stay
      have atIndex : session.wallet.utxos[before.length]? = some utxo := by
        rw [cached, List.getElem?_append_right (Nat.le_refl _), Nat.sub_self]
        rfl
      obtain ⟨middle, stayed, coin⟩ := resyncCoin_fixed fixed height stay atIndex
      have written : session.wallet.utxos.set before.length (node.reheight lib utxo) =
          (before ++ [node.reheight lib utxo]) ++ rest := by
        rw [cached, List.set_append_right _ _ (Nat.le_refl _), Nat.sub_self, List.set_cons_zero]
        simp
      rw [written] at coin
      obtain ⟨world, loop⟩ := ih (before ++ [node.reheight lib utxo])
        (session.leaving middle _) rfl height stayed
      rw [List.length_append, List.length_singleton] at loop
      refine ⟨world, ?_⟩
      rw [resyncFrom, Action.bind_of_ok _ coin, loop]
      simp [leaving]

/-- Against one fixed chain the call returns, whatever the cache held. -/
theorem resync_fixed (fixed : AnswersFrom lib node env stays) {session : Session ω}
    (before : stays session.world) :
    ∃ world, resync env session =
      (.ok (), session.retipped world (node.tip lib, node.height, node.medianTime)
        (session.wallet.utxos.map (node.reheight lib))) := by
  obtain ⟨world, after, read⟩ := readTip_fixed fixed before
  obtain ⟨final, loop⟩ := resyncFrom_fixed fixed session.wallet.utxos []
    (session.retipped world (node.tip lib, node.height, node.medianTime) session.wallet.utxos)
    rfl rfl after
  exact ⟨final, (resync_of_tip read).trans loop⟩

theorem resync_honest (lib : Btclib) (rules : NodeRules) (session : Session ChainWorld) :
    ∃ world, resync (honest lib rules) session =
      (.ok (), session.retipped world
        (session.world.node.tip lib, session.world.node.height, session.world.node.medianTime)
        (session.wallet.utxos.map (session.world.node.reheight lib))) :=
  resync_fixed (honest_answersFrom lib rules session.world.node) rfl

end Session

end Fixed

namespace Session

variable {ω : Type}

theorem resync_changes (env : Environment ω) (session : Session ω) :
    (∀ reached, resync env session = (.ok (), reached) → ∃ tip,
      (readTip env session.world).1 = .ok tip ∧
      List.Forall₂ Utxo.Reheighted session.wallet.utxos reached.wallet.utxos ∧
      reached = session.retipped reached.world tip reached.wallet.utxos) ∧
    (∀ raised reached, resync env session = (.error raised, reached) →
      (readTip env session.world).1 = .error raised ∧
        reached = { session with world := reached.world } ∨
      ∃ tip before utxo after done, (readTip env session.world).1 = .ok tip ∧
        session.wallet.utxos = before ++ utxo :: after ∧ utxo.coinbase = false ∧
        List.Forall₂ Utxo.Reheighted before done ∧
        reached = session.retipped reached.world tip (done ++ utxo :: after)) ∧
    (∀ lib node stays, AnswersFrom lib node env stays → stays session.world → ∃ world,
      resync env session =
        (.ok (), session.retipped world (node.tip lib, node.height, node.medianTime)
          (session.wallet.utxos.map (node.reheight lib)))) := by
  have byTip : ∀ result reached, resync env session = (result, reached) →
      (∃ raised, result = .error raised ∧ (readTip env session.world).1 = .error raised ∧
        reached = { session with world := reached.world }) ∨
      ∃ tip done, (readTip env session.world).1 = .ok tip ∧
        reached = session.retipped reached.world tip
          (done ++ session.wallet.utxos.drop done.length) ∧
        List.Forall₂ Utxo.Reheighted (session.wallet.utxos.take done.length) done ∧
        Ended session.wallet.utxos done result := by
    intro result reached run
    rcases read : readTip env session.world with ⟨raised | tip, world⟩
    · rw [resync_of_error read] at run
      obtain ⟨rfl, rfl⟩ := Prod.mk.inj run
      exact .inl ⟨raised, rfl, rfl, rfl⟩
    · obtain ⟨final, done, left, changed, ended⟩ := resync_leaves read
      rw [run] at left ended
      have isLeft : reached = _ := left
      refine .inr ⟨tip, done, rfl, ?_, changed, ended⟩
      rw [isLeft]
      rfl
  refine ⟨fun reached run => ?_, fun raised reached run => ?_, fun lib node stays fixed before => ?_⟩
  · rcases byTip _ _ run with ⟨_, raises, _, _⟩ | ⟨tip, done, read, left, changed, ended⟩
    · cases raises
    · have all : done.length = session.wallet.utxos.length := ended
      rw [all, List.take_length] at changed
      rw [all, List.drop_length, List.append_nil] at left
      refine ⟨tip, read, ?_, ?_⟩
      · rw [left]
        exact changed
      · rw [left]
        rfl
  · rcases byTip _ _ run with
      ⟨_, raises, read, same⟩ | ⟨tip, done, read, left, changed, utxo, atIndex, regular⟩
    · cases raises
      exact .inl ⟨read, same⟩
    · obtain ⟨inside, isUtxo⟩ := List.getElem?_eq_some_iff.mp atIndex
      have onward : session.wallet.utxos.drop done.length =
          utxo :: session.wallet.utxos.drop (done.length + 1) := by
        rw [List.drop_eq_getElem_cons inside, isUtxo]
      refine .inr ⟨tip, _, utxo, _, done, read, ?_, regular, changed, onward ▸ left⟩
      rw [← onward, List.take_append_drop]
  · exact resync_fixed fixed before

/-- The second of two coins is answered with no confirmations. -/
def answersOneCoin : Environment Unit where
  call method params world :=
    match method, params with
    | "getbestblockhash", _ => (.ok (.str (hex (List.replicate 32 0x22))), world)
    | "getblockcount", _ => (.ok (.int 9), world)
    | "getblockchaininfo", _ => (.ok (.object [("mediantime", .int 2000)]), world)
    | "gettxout", [_, .int 0, _] => (.ok (.object [("confirmations", .int 1)]), world)
    | _, _ => (.ok (.int 123), world)
  clock world := (0, world)

def twoCoins (height : Int) : List Utxo :=
  [⟨⟨List.replicate 32 1, 0⟩, 50, height, false⟩, ⟨⟨List.replicate 32 1, 1⟩, 50, 0, false⟩]

def beforeReorg : Session Unit :=
  ⟨⟨twoCoins 0, ∅, List.replicate 32 0x11, 5, 1000⟩, (), [], []⟩

theorem resync_raises_between : ∃ raised reached,
    resync answersOneCoin beforeReorg = (.error raised, reached) ∧
      reached.wallet = ⟨twoCoins 9, ∅, List.replicate 32 0x22, 9, 2000⟩ ∧
      ¬ (reached.wallet.tip = beforeReorg.wallet.tip ∧
        reached.wallet.height = beforeReorg.wallet.height ∧
        reached.wallet.lastTime = beforeReorg.wallet.lastTime ∧
        reached.wallet.utxos = beforeReorg.wallet.utxos) := by
  have read : readTip answersOneCoin () = (.ok (List.replicate 32 0x22, 9, 2000), ()) := by
    rw [readTip, Action.bind_of_ok _ (rpcCall_of_ok rfl), Json.asStr,
      Action.bind_of_ok _ (orRaise_some _ _ _), Action.bind_of_ok _ (rpcCall_of_ok rfl),
      Json.asInt, Action.bind_of_ok _ (orRaise_some _ _ _),
      Action.bind_of_ok _ (rpcCall_of_ok rfl)]
    simp [Json.get, Json.asInt, orRaise, Action.bind_apply, fromHex_hex]
  refine ⟨_, _, (@resync_of_tip _ _ beforeReorg _ _ read).trans rfl, rfl, ?_⟩
  rintro ⟨_, sameHeight, _⟩
  exact absurd sameHeight (by decide)

end Session

end BitcoinNodeTests
