import Mathlib.Tactic.Ring
import BitcoinNodeTests.MiniWallet.Distinct
import BitcoinNodeTests.MiniWallet.Priced
import BitcoinNodeTests.MiniWallet.Taken

/-!
# A mempool filled

`fill_mempool` spends confirmed coins of a wallet of its own, the first at the node's relay fee
rate and each other in a transaction padded to one size, at a fee a multiple higher than the one
before.  Where it returns, no two of these spend one coin, and each pays a higher fee rate than
those sent before it, so that a node that evicts by fee rate evicts the first of them first.
-/

set_option autoImplicit false

namespace BitcoinNodeTests

open Foundation

def TARGET_VSIZE : Int := 67560

def HIGH_FEE_TXS : Nat := 3

/-- What `fill_mempool` does with a number of an answer: `sats_from_btc`, `!=` and `<=`, `none`
where they raise, and how it is written. -/
structure Amounts where
  satsFromBtc : Json → Option Int
  differ : Json → Json → Bool
  atMost : Json → Json → Option Bool
  shown : Json → String

inductive FillRaised where
  | wallet (error : WalletRaised)
  | keyError (name : String)
  | typeError
  | amount
  | assertionError (message : String)

abbrev FillAction (ω α : Type) : Type := Action (Session ω) FillRaised α

namespace Session

variable {ω α : Type} (lib : Btclib) (env : Environment ω) (amounts : Amounts)

def ofWallet (action : Action (Session ω) WalletRaised α) : FillAction ω α := fun session =>
  match action session with
  | (.ok value, reached) => (.ok value, reached)
  | (.error error, reached) => (.error (.wallet error), reached)

def orFail (error : FillRaised) : Option α → FillAction ω α
  | some value => pure value
  | none => Action.raise error

def askNode (method : String) : FillAction ω Json := ofWallet (onWorld (rpcCall env method []))

def item (name : String) : Json → FillAction ω Json
  | .object fields => orFail (.keyError name) ((Json.object fields).get name)
  | _ => Action.raise .typeError

def drawCoins : Nat → Action (Session ω) WalletRaised (List Utxo)
  | 0 => pure []
  | count + 1 => do
      let coin ← getUtxo none none true true
      let rest ← drawCoins count
      pure (coin :: rest)

def sendNext (options : SelfTransfer) : List Utxo → Action (Session ω) WalletRaised (Tx × List Utxo)
  | [] => Action.raise .indexError
  | coin :: rest => do
      let tx ← sendSelfTransfer lib env { options with utxoToSpend := some coin }
      pure (tx, rest)

def padded (fee : Int) : SelfTransfer :=
  { SelfTransfer.default with fee := fee, targetVsize := TARGET_VSIZE }

def sendBatch : List Int → List Utxo → Action (Session ω) WalletRaised (List Tx × List Utxo)
  | [], coins => pure ([], coins)
  | fee :: fees, coins => do
      let (tx, coins) ← sendNext lib env (padded fee) coins
      let (txs, coins) ← sendBatch fees coins
      pure (tx :: txs, coins)

def baseFee (relayFeeRate : Int) : Int := relayFeeRate * 2 * (TARGET_VSIZE / 1000)

def batchFees (numTxs : Nat) (relayFeeRate : Int) : List Int :=
  (List.range numTxs).map fun index : Nat => ((index : Int) + 1) * baseFee relayFeeRate

def checkEvicted (numTxs : Nat) (relayFee : Json) (evicted : Tx) : FillAction ω Unit := do
  let answer ← askNode env "getrawmempool"
  let mempool ← orFail .typeError answer.asArray
  if numTxs ≤ mempool.length then
    Action.raise (.assertionError
      s!"{mempool.length} transactions still in the mempool, none evicted")
  else if mempool.any fun id => id.asStr = some (hex (lib.txId evicted)) then
    Action.raise (.assertionError
      s!"the minimum fee-rate transaction {hex (lib.txId evicted)} was not evicted")
  else do
    let mempoolInfo ← askNode env "getmempoolinfo"
    let minRelay ← item "minrelaytxfee" mempoolInfo
    if amounts.differ minRelay relayFee then
      Action.raise (.assertionError
        s!"minrelaytxfee {amounts.shown minRelay} moved off {amounts.shown relayFee}")
    else do
      let minFee ← item "mempoolminfee" mempoolInfo
      let low ← orFail .amount (amounts.atMost minFee relayFee)
      if low then
        Action.raise (.assertionError
          s!"mempoolminfee {amounts.shown minFee} did not rise above {amounts.shown relayFee}")
      else pure ()

/-- `fill_mempool` once its coins are mined, with the transactions it sent. -/
def fillFrom (numTxs : Nat) : FillAction ω (List Tx) := do
  let networkInfo ← askNode env "getnetworkinfo"
  let relayFee ← item "relayfee" networkInfo
  let relayFeeRate ← orFail .amount (amounts.satsFromBtc relayFee)
  let fees := batchFees numTxs relayFeeRate
  let coins ← ofWallet (drawCoins (numTxs + 1))
  let (evicted, coins) ←
    ofWallet (sendNext lib env { SelfTransfer.default with feeRate := relayFeeRate } coins)
  let (early, coins) ← ofWallet (sendBatch lib env (fees.take (numTxs - HIGH_FEE_TXS)) coins)
  let mempoolInfo ← askNode env "getmempoolinfo"
  let minFee ← item "mempoolminfee" mempoolInfo
  if amounts.differ minFee relayFee then
    Action.raise (.assertionError
      (s!"mempoolminfee {amounts.shown minFee} already above relayfee {amounts.shown relayFee} " ++
        s!"before the last {HIGH_FEE_TXS} transactions were sent"))
  else do
    let (late, _) ← ofWallet (sendBatch lib env (fees.drop (numTxs - HIGH_FEE_TXS)) coins)
    checkEvicted lib env amounts numTxs relayFee evicted
    pure (evicted :: (early ++ late))

def mineCoins (numTxs : Nat) : FillAction ω Unit := do
  let _ ← ofWallet (generate lib env (numTxs + 1) [])
  let _ ← ofWallet (generate lib env (COINBASE_MATURITY - 1) [])
  pure ()

end Session

def fillMempool {ω : Type} (lib : Btclib) (env : Environment ω) (amounts : Amounts) (numTxs : Nat) :
    Action ω FillRaised (List Tx) := fun world =>
  match Session.construct env world with
  | (.error error, reached) => (.error (.wallet error), reached)
  | (.ok wallet, reached) =>
      let (result, session) := (do
        Session.mineCoins lib env numTxs
        Session.fillFrom lib env amounts numTxs : FillAction ω (List Tx))
        ⟨wallet, reached, [], []⟩
      (result, session.world)

/-! ## What is sent -/

structure Spent (lib : Btclib) where
  options : SelfTransfer
  coin : Utxo
  tx : Tx
  built : selfTransferOf lib options coin = .ok tx

namespace Spent

variable {lib : Btclib}

def fee (spent : Spent lib) : Int := spent.coin.value - spent.tx.total

def Below (low high : Spent lib) : Prop := low.fee * high.tx.vsize < high.fee * low.tx.vsize

theorem spends (spent : Spent lib) : spent.tx.spends = [spent.coin.outpoint] :=
  (selfTransferOf_ok spent.built).1

theorem fee_eq (spent : Spent lib) :
    spent.fee = spent.options.feeOf (spent.options.priced lib spent.coin) :=
  (selfTransferOf_pays spent.built).1

end Spent

namespace Session

variable {ω α : Type} {lib : Btclib} {env : Environment ω} {session reached : Session ω}

theorem ofWallet_ok {action : Action (Session ω) WalletRaised α} {value : α}
    (run : ofWallet action session = (.ok value, reached)) :
    action session = (.ok value, reached) := by
  rw [ofWallet] at run
  rcases ran : action session with ⟨error | found, middle⟩
  · simp only [ran] at run
    cases run
  · simp only [ran] at run
    cases run
    rfl

theorem orFail_ok {error : FillRaised} {answer : Option α} {value : α}
    (run : (orFail error answer : FillAction ω α) session = (.ok value, reached)) :
    answer = some value ∧ reached = session := by
  cases answer with
  | none => cases run
  | some found =>
      cases run
      exact ⟨rfl, rfl⟩

theorem item_ok {name : String} {answer value : Json}
    (run : (item name answer : FillAction ω Json) session = (.ok value, reached)) :
    answer.get name = some value ∧ reached = session := by
  cases answer with
  | object fields => exact orFail_ok run
  | _ => cases run

theorem getUtxo_confirmed {coin : Utxo} (distinct : session.wallet.outpoints.Nodup)
    (run : getUtxo none none true true session = (.ok coin, reached)) :
    coin ∈ session.wallet.utxos ∧ coin.confirmed = true ∧ reached.wallet.outpoints.Nodup ∧
      ∀ utxo ∈ reached.wallet.utxos,
        utxo ∈ session.wallet.utxos ∧ utxo.outpoint ≠ coin.outpoint := by
  have takes := getUtxo_takes distinct none none true true
  have left := (getUtxo_thins none none true true session).nodup distinct
  rw [run] at takes left
  rcases isHead : (session.wallet.sorted.candidates none none true).head? with _ | found
  · rw [getUtxo_lacks isHead] at run
    cases run
  · rw [getUtxo_first isHead] at run
    have same : found = coin := by
      injection run with found
      injection found
    subst same
    have candidate := List.mem_of_mem_head? isHead
    have confirmed := (List.mem_filter.mp candidate).2
    have taken : (Call.getUtxo none none true true).takes session.wallet = [found.outpoint] := by
      simp [Call.takes, isHead]
    rw [taken] at takes
    refine ⟨?_, confirmed, left, fun utxo member => ?_⟩
    · exact (sorted_perm session.wallet).mem_iff.mp (Wallet.candidates_cached candidate)
    · obtain ⟨held, other⟩ := (takes.coins utxo).mp member
      exact ⟨held, fun same => other (List.mem_singleton.mpr same)⟩

theorem drawCoins_ok (count : Nat) : ∀ {session reached : Session ω} {coins : List Utxo},
    session.wallet.outpoints.Nodup →
    drawCoins count session = (.ok coins, reached) →
    coins.length = count ∧ (coins.map Utxo.outpoint).Nodup ∧
      (∀ coin ∈ coins, coin ∈ session.wallet.utxos ∧ coin.confirmed = true) ∧
      reached.world = session.world := by
  induction count with
  | zero =>
      intro session reached coins distinct run
      cases run
      exact ⟨rfl, List.nodup_nil, fun _ member => absurd member List.not_mem_nil, rfl⟩
  | succ count ih =>
      intro session reached coins distinct run
      obtain ⟨coin, middle, takes, run⟩ := Action.bind_ok_iff.mp run
      obtain ⟨rest, final, draws, returns⟩ := Action.bind_ok_iff.mp run
      cases returns
      obtain ⟨cached, confirmed, left, others⟩ := getUtxo_confirmed distinct takes
      obtain ⟨long, apart, each, kept⟩ := ih left draws
      have taken := getUtxo_thins none none true true session
      rw [takes] at taken
      have unmoved := congrArg Session.world taken.same
      refine ⟨congrArg (· + 1) long, ?_, ?_, kept.trans unmoved⟩
      · rw [List.map_cons, List.nodup_cons]
        refine ⟨fun member => ?_, apart⟩
        obtain ⟨other, among, same⟩ := List.mem_map.mp member
        exact (others other (each other among).1).2 same
      · refine List.forall_mem_cons.mpr ⟨⟨cached, confirmed⟩, fun other among => ?_⟩
        exact ⟨(others other (each other among).1).1, (each other among).2⟩

theorem sendNext_ok {options : SelfTransfer} {coins left : List Utxo} {tx : Tx}
    (run : sendNext lib env options coins session = (.ok (tx, left), reached)) :
    ∃ spent : Spent lib, spent.tx = tx ∧ spent.coin :: left = coins ∧
      spent.options = { options with utxoToSpend := some spent.coin } ∧
      ∀ {later : List Tx} {final : ω}, Accepts lib env later reached.world final →
        Accepts lib env (tx :: later) session.world final := by
  cases coins with
  | nil => cases run
  | cons coin rest =>
      obtain ⟨sent, middle, sends, returns⟩ := Action.bind_ok_iff.mp run
      cases returns
      obtain ⟨made, created, creates, sends⟩ := Action.bind_ok_iff.mp sends
      rw [createSelfTransfer] at creates
      split at creates
      · cases creates
      · have builds : selfTransferOf lib { options with utxoToSpend := some coin } coin =
            .ok made := congrArg Prod.fst creates
        have unchanged : session = created := congrArg Prod.snd creates
        subst unchanged
        have returned := send_sent lib env made session
        rw [sends] at returned
        cases returned with
        | scanned serialized answered isId =>
            exact ⟨⟨_, coin, _, builds⟩, rfl, rfl, rfl, .cons serialized answered isId⟩

theorem sendBatch_ok {fees : List Int} : ∀ {session reached : Session ω} {coins left : List Utxo}
    {txs : List Tx}, sendBatch lib env fees coins session = (.ok (txs, left), reached) →
    ∃ batch : List (Spent lib), batch.map Spent.tx = txs ∧ batch.map Spent.coin ++ left = coins ∧
      batch.map (fun spent => spent.options.fee) = fees ∧
      (∀ spent ∈ batch, spent.options =
        { padded spent.options.fee with utxoToSpend := some spent.coin }) ∧
      Accepts lib env txs session.world reached.world := by
  induction fees with
  | nil =>
      intro session reached coins left txs run
      cases run
      exact ⟨[], rfl, rfl, rfl, fun _ member => absurd member List.not_mem_nil, .nil⟩
  | cons fee fees ih =>
      intro session reached coins left txs run
      obtain ⟨⟨tx, kept⟩, middle, sends, run⟩ := Action.bind_ok_iff.mp run
      obtain ⟨⟨rest, others⟩, final, batches, returns⟩ := Action.bind_ok_iff.mp run
      cases returns
      obtain ⟨spent, rfl, drawn, asked, before⟩ := sendNext_ok sends
      obtain ⟨batch, rfl, drawn', fees', each, accepts⟩ := ih batches
      have own : spent.options.fee = fee := by rw [asked]; rfl
      refine ⟨spent :: batch, rfl, ?_, ?_, List.forall_mem_cons.mpr ⟨?_, each⟩, before accepts⟩
      · rw [← drawn, ← drawn']
        rfl
      · rw [List.map_cons, own, fees']
      · rw [own]
        exact asked

theorem askNode_ok {method : String} {answer : Json}
    (run : askNode env method session = (.ok answer, reached)) :
    env.call method [] session.world = (.ok answer, reached.world) ∧
      reached.wallet = session.wallet := by
  have asked := ofWallet_ok run
  rw [onWorld] at asked
  rcases answered : env.call method [] session.world with ⟨failure | found, world⟩
  · rw [rpcCall_of_error answered] at asked
    cases asked
  · rw [rpcCall_of_ok answered] at asked
    cases asked
    exact ⟨rfl, rfl⟩

end Session

/-! ## The rates -/

namespace Spent

variable {lib : Btclib} {first second : Spent lib} {fee other relayFeeRate : Int}

/-- The size of a padded transaction, which is no other for another coin. -/
theorem padded_vsize
    (asked : first.options = { Session.padded fee with utxoToSpend := some first.coin }) :
    (first.tx.vsize : Int) = TARGET_VSIZE +
      drift (TARGET_VSIZE - (SelfTransfer.default.priced lib first.coin).bareVsize) := by
  have size := selfTransferOf_vsize first.built
  have sized : first.options.targetVsize ≠ 0 := by
    rw [asked]
    exact (by decide : TARGET_VSIZE ≠ 0)
  rw [if_neg sized, asked] at size
  exact size

theorem bareVsize_same (coin another : Utxo) :
    (SelfTransfer.default.priced lib coin).bareVsize =
      (SelfTransfer.default.priced lib another).bareVsize := rfl

theorem drift_bounds (deficit : Int) : -4 ≤ drift deficit ∧ drift deficit ≤ 2 := by
  unfold drift
  split_ifs <;> omega

theorem padded_fee
    (asked : first.options = { Session.padded fee with utxoToSpend := some first.coin })
    (some : fee ≠ 0) : first.fee = fee := by
  rw [fee_eq, asked, SelfTransfer.feeOf]
  exact if_pos some

theorem padded_below
    (asked : first.options = { Session.padded fee with utxoToSpend := some first.coin })
    (asked' : second.options = { Session.padded other with utxoToSpend := some second.coin })
    (positive : 0 < fee) (less : fee < other) : first.Below second := by
  have size := padded_vsize asked
  have size' := padded_vsize asked'
  rw [bareVsize_same second.coin first.coin, ← size] at size'
  have bounds := drift_bounds
    (TARGET_VSIZE - (SelfTransfer.default.priced lib first.coin).bareVsize)
  have target : TARGET_VSIZE = 67560 := rfl
  have large : 0 < (first.tx.vsize : Int) := by omega
  rw [Below, padded_fee asked (by omega), padded_fee asked' (by omega), size']
  exact Int.mul_lt_mul_of_pos_right less large

theorem feeAt_rounds (feeRate size : Int) :
    feeRate * size ≤ 1000 * feeAt feeRate size ∧
      1000 * feeAt feeRate size < feeRate * size + 1000 := by
  have least := feeAt_isLeast feeRate size
  refine ⟨least.1, ?_⟩
  by_contra more
  have fewer : feeAt feeRate size ≤ feeAt feeRate size - 1 :=
    least.2 (show feeRate * size ≤ 1000 * (feeAt feeRate size - 1) by omega)
  omega

theorem rate_pos {size : Nat} (enough : 1016 ≤ relayFeeRate * size) : 0 < relayFeeRate := by
  by_contra none
  have free := Int.mul_nonpos_of_nonpos_of_nonneg (Int.not_lt.mp none) (Int.natCast_nonneg size)
  omega

/-- A transaction at the relay fee rate pays less than a padded one at a multiple of the base
fee, unless rounding up its fee makes up for the half. -/
theorem rated_below
    (asked : first.options =
      { SelfTransfer.default with feeRate := relayFeeRate, utxoToSpend := some first.coin })
    (asked' : second.options = { Session.padded other with utxoToSpend := some second.coin })
    (enough : 1016 ≤ relayFeeRate * first.tx.vsize)
    (multiple : Session.baseFee relayFeeRate ≤ other) : first.Below second := by
  have size : (first.tx.vsize : Int) = (first.options.priced lib first.coin).vsize := by
    have sized : first.options.targetVsize = 0 := by rw [asked]; rfl
    have size := selfTransferOf_vsize first.built
    rwa [if_pos sized] at size
  have paid : first.fee = feeAt relayFeeRate first.tx.vsize := by
    rw [fee_eq, size, asked]
    rfl
  have rounded := feeAt_rounds relayFeeRate first.tx.vsize
  rw [← paid] at rounded
  have rate := rate_pos enough
  have size' := padded_vsize asked'
  have bounds := drift_bounds
    (TARGET_VSIZE - (SelfTransfer.default.priced lib second.coin).bareVsize)
  have target : TARGET_VSIZE = 67560 := rfl
  have base : Session.baseFee relayFeeRate = relayFeeRate * 134 := by
    rw [Session.baseFee, target]
    omega
  have most : first.fee * second.tx.vsize ≤ first.fee * 67562 :=
    Int.mul_le_mul_of_nonneg_left (by omega) (by omega)
  have fewest : relayFeeRate * 134 * first.tx.vsize ≤ other * first.tx.vsize :=
    Int.mul_le_mul_of_nonneg_right (by omega) (by omega)
  have product : relayFeeRate * 134 * first.tx.vsize = 134 * (relayFeeRate * first.tx.vsize) := by
    ring
  rw [Below, padded_fee asked' (by omega)]
  omega

end Spent

/-! ## What a run sends -/

section Filled

variable {ω : Type} {lib : Btclib} {env : Environment ω} {amounts : Amounts} {numTxs : Nat}
  {relayFeeRate : Int}

theorem baseFee_pos (rate : 0 < relayFeeRate) : 0 < Session.baseFee relayFeeRate := by
  have target : TARGET_VSIZE = 67560 := rfl
  rw [Session.baseFee, target]
  omega

theorem mem_batchFees {fee : Int} (rate : 0 < relayFeeRate)
    (member : fee ∈ Session.batchFees numTxs relayFeeRate) :
    Session.baseFee relayFeeRate ≤ fee := by
  obtain ⟨index, -, rfl⟩ := List.mem_map.mp member
  have base := baseFee_pos rate
  have more := Int.mul_nonneg (Int.natCast_nonneg index) (Int.le_of_lt base)
  rw [Int.add_mul, Int.one_mul]
  omega

theorem batchFees_ascending (numTxs : Nat) (rate : 0 < relayFeeRate) :
    (Session.batchFees numTxs relayFeeRate).Pairwise (· < ·) := by
  refine List.pairwise_map.mpr (List.pairwise_lt_range.imp fun {index later} before => ?_)
  exact Int.mul_lt_mul_of_pos_right (by omega) (baseFee_pos rate)

/-- One transaction for each fee, and one before them: no two spend one coin, and where the relay
fee rate is no less than what rounding could make up for, each pays more than those before it. -/
structure Filled (lib : Btclib) (numTxs : Nat) (relayFeeRate : Int) (sent : List (Spent lib)) :
    Prop where
  count : sent.length = numTxs + 1
  confirmed : ∀ spent ∈ sent, spent.coin.confirmed = true
  apart : (sent.map fun spent => spent.coin.outpoint).Nodup
  rates : (∀ first ∈ sent.head?, 1016 ≤ relayFeeRate * first.tx.vsize) → sent.Pairwise Spent.Below

/-- What was sent is so of the coins drawn and the fees asked for. -/
theorem filled_of_drawn {first : Spent lib} {batch : List (Spent lib)} {coins left : List Utxo}
    (drawn : (first :: batch).map Spent.coin ++ left = coins)
    (apart : (coins.map Utxo.outpoint).Nodup) (confirmed : ∀ coin ∈ coins, coin.confirmed = true)
    (asked : first.options =
      { SelfTransfer.default with feeRate := relayFeeRate, utxoToSpend := some first.coin })
    (fees : batch.map (fun spent => spent.options.fee) = Session.batchFees numTxs relayFeeRate)
    (each : ∀ spent ∈ batch, spent.options =
      { Session.padded spent.options.fee with utxoToSpend := some spent.coin }) :
    Filled lib numTxs relayFeeRate (first :: batch) := by
  subst drawn
  constructor
  · have long := congrArg List.length fees
    rw [List.length_map, Session.batchFees, List.length_map, List.length_range] at long
    rw [List.length_cons, long]
  · intro spent member
    exact confirmed _ (List.mem_append_left _ (List.mem_map_of_mem member))
  · rw [List.map_append, List.map_map] at apart
    exact (List.nodup_append.mp apart).1
  · intro enough
    have enough := enough first rfl
    have rate := Spent.rate_pos enough
    have multiple : ∀ spent ∈ batch, Session.baseFee relayFeeRate ≤ spent.options.fee := by
      intro spent member
      apply @mem_batchFees numTxs relayFeeRate _ rate
      rw [← fees]
      exact List.mem_map_of_mem (f := fun spent : Spent lib => spent.options.fee) member
    have base := baseFee_pos rate
    refine List.pairwise_cons.mpr ⟨fun spent member => ?_, ?_⟩
    · exact Spent.rated_below asked (each spent member) enough (multiple spent member)
    · have ascending := batchFees_ascending numTxs rate
      rw [← fees, List.pairwise_map] at ascending
      refine ascending.imp_of_mem fun {low high} member member' less => ?_
      have positive := multiple low member
      exact Spent.padded_below (each low member) (each high member') (by omega) less

/-- What the node answers from the world `world` to the one `final`, in order: its relay fee, the
ids of the first transactions sent, a minimum fee that is its relay fee, the ids of the others,
and a mempool of fewer transactions than those, the first of all not among them, with a minimum
fee above its relay fee. -/
inductive FillAnswers (lib : Btclib) (env : Environment ω) (amounts : Amounts) (numTxs : Nat)
    (relayFeeRate : Int) : List Tx → ω → ω → Prop where
  | intro {networkInfo relayFee earlyInfo minFee answer lateInfo minRelay lateFee : Json}
      {mempool : List Json} {evicted : Tx} {early late : List Tx}
      {world told sentEarly polled sent listed final : ω}
      (tells : env.call "getnetworkinfo" [] world = (.ok networkInfo, told))
      (isFee : networkInfo.get "relayfee" = some relayFee)
      (isRate : amounts.satsFromBtc relayFee = some relayFeeRate)
      (takesEarly : Accepts lib env (evicted :: early) told sentEarly)
      (count : early.length = numTxs - HIGH_FEE_TXS)
      (polls : env.call "getmempoolinfo" [] sentEarly = (.ok earlyInfo, polled))
      (isMinFee : earlyInfo.get "mempoolminfee" = some minFee)
      (notYet : amounts.differ minFee relayFee = false)
      (takesLate : Accepts lib env late polled sent)
      (lists : env.call "getrawmempool" [] sent = (.ok answer, listed))
      (isArray : answer.asArray = some mempool)
      (fewer : mempool.length < numTxs)
      (gone : ∀ id ∈ mempool, id.asStr ≠ some (hex (lib.txId evicted)))
      (pollsAgain : env.call "getmempoolinfo" [] listed = (.ok lateInfo, final))
      (isMinRelay : lateInfo.get "minrelaytxfee" = some minRelay)
      (unmoved : amounts.differ minRelay relayFee = false)
      (isLateFee : lateInfo.get "mempoolminfee" = some lateFee)
      (risen : amounts.atMost lateFee relayFee = some false) :
      FillAnswers lib env amounts numTxs relayFeeRate (evicted :: (early ++ late)) world final

variable {session reached : Session ω}

theorem checkEvicted_ok {relayFee : Json} {evicted : Tx}
    (run : Session.checkEvicted lib env amounts numTxs relayFee evicted session =
      (.ok (), reached)) :
    ∃ answer mempool listed lateInfo minRelay lateFee,
      env.call "getrawmempool" [] session.world = (.ok answer, listed) ∧
      answer.asArray = some mempool ∧ mempool.length < numTxs ∧
      (∀ id ∈ mempool, id.asStr ≠ some (hex (lib.txId evicted))) ∧
      env.call "getmempoolinfo" [] listed = (.ok lateInfo, reached.world) ∧
      lateInfo.get "minrelaytxfee" = some minRelay ∧ amounts.differ minRelay relayFee = false ∧
      lateInfo.get "mempoolminfee" = some lateFee ∧
      amounts.atMost lateFee relayFee = some false := by
  obtain ⟨answer, asked, asks, run₁⟩ := Action.bind_ok_iff.mp run
  obtain ⟨mempool, read, reads, run₂⟩ := Action.bind_ok_iff.mp run₁
  obtain ⟨answered, -⟩ := Session.askNode_ok asks
  obtain ⟨isArray, kept⟩ := Session.orFail_ok reads
  split_ifs at run₂ with many listed
  · cases run₂
  · cases run₂
  · obtain ⟨lateInfo, polled, polls, run₃⟩ := Action.bind_ok_iff.mp run₂
    obtain ⟨minRelay, read₁, reads₁, run₄⟩ := Action.bind_ok_iff.mp run₃
    split_ifs at run₄ with moved
    · cases run₄
    · obtain ⟨lateFee, read₂, reads₂, run₅⟩ := Action.bind_ok_iff.mp run₄
      obtain ⟨low, read₃, reads₃, run₆⟩ := Action.bind_ok_iff.mp run₅
      obtain ⟨polled', -⟩ := Session.askNode_ok polls
      obtain ⟨isMinRelay, kept₁⟩ := Session.item_ok reads₁
      obtain ⟨isLateFee, kept₂⟩ := Session.item_ok reads₂
      obtain ⟨isLow, kept₃⟩ := Session.orFail_ok reads₃
      split_ifs at run₆ with under
      · cases run₆
      · cases run₆
        have notLow : low = false := Bool.eq_false_iff.mpr under
        rw [notLow] at isLow
        rw [kept] at polled'
        have final : reached.world = polled.world := by rw [kept₃, kept₂, kept₁]
        rw [← final] at polled'
        refine ⟨answer, mempool, asked.world, lateInfo, minRelay, lateFee, answered, isArray,
          Nat.lt_of_not_le many, ?_, polled', isMinRelay, Bool.eq_false_iff.mpr moved, isLateFee,
          isLow⟩
        intro id member same
        exact listed (List.any_eq_true.mpr ⟨id, member, decide_eq_true same⟩)

theorem fillFrom_ok (distinct : session.wallet.outpoints.Nodup) {txs : List Tx}
    (run : Session.fillFrom lib env amounts numTxs session = (.ok txs, reached)) :
    ∃ relayFeeRate sent, txs = sent.map Spent.tx ∧ Filled lib numTxs relayFeeRate sent ∧
      FillAnswers lib env amounts numTxs relayFeeRate txs session.world reached.world := by
  obtain ⟨networkInfo, world₁, asks, run₁⟩ := Action.bind_ok_iff.mp run
  obtain ⟨relayFee, world₂, reads, run₂⟩ := Action.bind_ok_iff.mp run₁
  obtain ⟨relayFeeRate, world₃, converts, run₃⟩ := Action.bind_ok_iff.mp run₂
  obtain ⟨coins, world₄, draws, run₄⟩ := Action.bind_ok_iff.mp run₃
  obtain ⟨⟨tx, left⟩, world₅, sends, run₅⟩ := Action.bind_ok_iff.mp run₄
  obtain ⟨⟨early, left'⟩, world₆, earlies, run₆⟩ := Action.bind_ok_iff.mp run₅
  obtain ⟨mempoolInfo, world₇, polls, run₇⟩ := Action.bind_ok_iff.mp run₆
  obtain ⟨minFee, world₈, reads', run₈⟩ := Action.bind_ok_iff.mp run₇
  dsimp only at run₈
  split at run₈
  · cases run₈
  · rename_i notYet
    obtain ⟨⟨late, left''⟩, world₉, lates, run₉⟩ := Action.bind_ok_iff.mp run₈
    obtain ⟨_, checked, checks, returns⟩ := Action.bind_ok_iff.mp run₉
    cases returns
    obtain ⟨tells, same⟩ := Session.askNode_ok asks
    obtain ⟨isFee, rfl⟩ := Session.item_ok reads
    obtain ⟨isRate, rfl⟩ := Session.orFail_ok converts
    obtain ⟨polled, -⟩ := Session.askNode_ok polls
    obtain ⟨isMinFee, rfl⟩ := Session.item_ok reads'
    rw [← same] at distinct
    obtain ⟨-, apart, held, kept⟩ := Session.drawCoins_ok _ distinct (Session.ofWallet_ok draws)
    obtain ⟨spent, rfl, drawn, asked, before⟩ := Session.sendNext_ok (Session.ofWallet_ok sends)
    obtain ⟨batch, rfl, drawn', fees, each, accepts⟩ :=
      Session.sendBatch_ok (Session.ofWallet_ok earlies)
    obtain ⟨batch', rfl, drawn'', fees', each', accepts'⟩ :=
      Session.sendBatch_ok (Session.ofWallet_ok lates)
    obtain ⟨answer, mempool, listed, lateInfo, minRelay, lateFee, lists, isArray, fewer, gone,
      pollsAgain, isMinRelay, unmoved, isLateFee, risen⟩ := checkEvicted_ok checks
    have spends : (spent :: (batch ++ batch')).map Spent.coin ++ left'' = coins := by
      rw [← drawn, ← drawn', ← drawn'']
      simp
    have takesEarly := before accepts
    rw [kept] at takesEarly
    have long := congrArg List.length fees
    rw [List.length_map, List.length_take, Session.batchFees, List.length_map,
      List.length_range] at long
    refine ⟨relayFeeRate, spent :: (batch ++ batch'), ?_, ?_, ?_⟩
    · rw [List.map_cons, List.map_append]
    · refine filled_of_drawn spends apart (fun coin member => (held coin member).2) asked ?_ ?_
      · rw [List.map_append, fees, fees', List.take_append_drop]
      · exact fun other member => (List.mem_append.mp member).elim (each other) (each' other)
    · exact .intro tells isFee isRate takesEarly (by rw [List.length_map]; omega) polled isMinFee
        (Bool.eq_false_iff.mpr notYet) accepts' lists isArray fewer gone pollsAgain isMinRelay
        unmoved isLateFee risen

theorem fillMempool_of_mined {before world : ω} {wallet : Wallet} {mined : Session ω}
    (built : Session.construct env before = (.ok wallet, world))
    (mines : Session.mineCoins lib env numTxs ⟨wallet, world, [], []⟩ = (.ok (), mined)) :
    (fillMempool lib env amounts numTxs before).1 =
      (Session.fillFrom lib env amounts numTxs mined).1 := by
  simp only [fillMempool, built]
  rw [Action.bind_apply, mines]

end Filled

def shortId (tx : Tx) : List Octet :=
  1 :: tx.vin.flatMap fun txIn => txIn.prevOut.txId.dropWhile (· = 0) ++ txIn.scriptSig

/-- btclib with short ids, which it sends a transaction as. -/
def shortIds : Btclib :=
  { PlainLib.lib with
    txId := shortId
    serialize := fun tx => some (shortId tx) }

/-- A node that answers a transaction's id to it and evicts what it holds, the world being how
often it was asked for its mempool's rates. -/
def evicting : Environment Nat where
  call method params world :=
    match method, params with
    | "getbestblockhash", _ => (.ok (.str (hex [1])), world)
    | "getblockcount", _ => (.ok (.int 3), world)
    | "getblockchaininfo", _ => (.ok (.object [("mediantime", .int 110)]), world)
    | "sendrawtransaction", encoded :: _ => (.ok encoded, world)
    | "getnetworkinfo", _ => (.ok (.object [("relayfee", .real "1e-05")]), world)
    | "getrawmempool", _ => (.ok (.array []), world)
    | "getmempoolinfo", _ =>
        (.ok (.object [("minrelaytxfee", .real "1e-05"),
          ("mempoolminfee", .real (if world = 0 then "1e-05" else "2e-05"))]), world + 1)
    | _, _ => (.ok .null, world)
  clock world := (1000, world)

def rateOf : Json → Option Int
  | .real "1e-05" => some 1000
  | .real "2e-05" => some 2000
  | _ => none

def plainAmounts : Amounts where
  satsFromBtc := rateOf
  differ amount other := rateOf amount ≠ rateOf other
  atMost amount other := do
    let rate ← rateOf amount
    let most ← rateOf other
    pure (rate ≤ most)
  shown
    | .real text => text
    | _ => ""

theorem evicting_construct : Session.construct evicting 0 = (.ok Session.echoWallet, 0) := by
  simp [Session.construct, readTip, rpcCall, evicting, Action.bind_apply, orRaise, Json.asStr,
    Json.asInt, Json.get, Session.echoWallet]

def minedSession : Session Nat :=
  (Session.mineCoins shortIds evicting 1 ⟨Session.echoWallet, 0, [], []⟩).2

def minedCoins : List Utxo :=
  (List.range 101).map fun index : Nat =>
    Session.coinbaseCoin shortIds (4 + index)
      (PlainLib.coinbase (4 + index) [0x51] REGTEST_SUBSIDY_HALVING_INTERVAL)

def Session.withCoins (coins : List Utxo) (height : Int) (world : Nat) (session : Session Nat) :
    Session Nat :=
  { session with
    wallet := { session.wallet with utxos := coins, height := height }
    world := world }

theorem Session.withCoins_self (session : Session Nat) :
    session.withCoins session.wallet.utxos session.wallet.height session.world = session := rfl

theorem minedSession_eq : minedSession = minedSession.withCoins minedCoins 104 0 := by
  have coins : minedSession.wallet.utxos = minedCoins := by decide +kernel
  have height : minedSession.wallet.height = 104 := by decide +kernel
  have world : minedSession.world = 0 := by decide +kernel
  have same := minedSession.withCoins_self
  rw [coins, height, world] at same
  exact same.symm

theorem mineCoins_evicting :
    Session.mineCoins shortIds evicting 1 ⟨Session.echoWallet, 0, [], []⟩ =
      (.ok (), minedSession) := by
  have mines : (Session.mineCoins shortIds evicting 1
      ⟨Session.echoWallet, 0, [], []⟩).1.isOk = true := by decide +kernel
  rcases run : Session.mineCoins shortIds evicting 1 ⟨Session.echoWallet, 0, [], []⟩ with
    ⟨error | ⟨⟩, reached⟩
  · rw [run] at mines
    cases mines
  · rw [minedSession, run]

theorem minedCoins_nodup : (minedCoins.map Utxo.outpoint).Nodup := by
  decide +kernel

theorem fillFrom_evicting : (Session.fillFrom shortIds evicting plainAmounts 1
    (minedSession.withCoins minedCoins 104 0)).1.isOk = true := by
  decide +kernel

theorem fillMempool_evicting :
    (fillMempool shortIds evicting plainAmounts 1 0).1.isOk = true := by
  rw [fillMempool_of_mined evicting_construct mineCoins_evicting, minedSession_eq]
  exact fillFrom_evicting

end BitcoinNodeTests
