import BitcoinNodeTests.MiniWallet.PlainLib
import BitcoinNodeTests.MiniWallet.Turn

/-!
# What `generate` records of the blocks accepted

A turn whose block the node accepts records it last, after the scan of its
transactions and the read of the mempool that the scan may ask for.  The read can
raise, and then the block is on the node's chain and not in the wallet: exactly
there, and where a coinbase already has its outpoint cached, the wallet disagrees
with what the node accepted.
-/

set_option autoImplicit false

namespace BitcoinNodeTests

open Foundation

def Wallet.tipFields (wallet : Wallet) : List Octet × Int × Int :=
  (wallet.tip, wallet.height, wallet.lastTime)

namespace Session

variable {ω : Type}

def newlyAccepted (before after : Session ω) : List Mined :=
  after.accepted.drop before.accepted.length

def coinOf (lib : Btclib) (mined : Mined) : Option Utxo :=
  mined.block.transactions.head?.map (coinbaseCoin lib mined.height)

def coinbaseOutpoints (lib : Btclib) (accepted : List Mined) : List OutPoint :=
  (accepted.filterMap (coinOf lib)).map Utxo.outpoint

/-- The tip fields are those of the last block accepted, every accepted block's coinbase
is cached once, and the blocks not accepted changed nothing: a call for the accepted
ones alone leaves the same wallet. -/
structure Agrees (lib : Btclib) (env : Environment ω) (confirm : List Tx)
    (before after : Session ω) : Prop where
  tip : after.wallet.tipFields =
    ((newlyAccepted before after).getLast?.map fun mined =>
      (lib.blockHash mined.block.header, mined.height, mined.time)).getD before.wallet.tipFields
  coinbase : ∀ mined ∈ newlyAccepted before after, ∃ coin, coinOf lib mined = some coin ∧
    coin ∈ after.wallet.utxos ∧ after.wallet.outpoints.count coin.outpoint = 1
  refused : (generate lib env (newlyAccepted before after).length confirm before).2.wallet =
    after.wallet

/-- Where the scan of an accepted first block added coins the mempool can be read, and
the coinbases accepted have outpoints of their own, not left in the cache then. -/
structure RecordsAccepted (lib : Btclib) (env : Environment ω) (count : Int) (confirm : List Tx)
    (before : Session ω) (accepted : List Mined) : Prop where
  readable : 0 < count → ∀ mined world,
    Submitted lib env confirm before mined (.ok .null) world →
    (scanOf lib confirm before).1 ≠ [] →
    ∃ spends later, mempoolSpends lib env world = (.ok spends, later)
  fresh : ∀ mined world wallet later, Submitted lib env confirm before mined (.ok .null) world →
    MempoolRead lib env confirm before world wallet later →
    ∀ outpoint ∈ coinbaseOutpoints lib accepted, outpoint ∉ wallet.outpoints
  distinct : (coinbaseOutpoints lib accepted).Nodup

/-! ## The blocks recorded -/

def recordMined (lib : Btclib) (mined : Mined) (wallet : Wallet) : Wallet :=
  { wallet with
    utxos := wallet.utxos ++ (coinOf lib mined).toList
    tip := lib.blockHash mined.block.header
    height := mined.height
    lastTime := mined.time }

def recordAll (lib : Btclib) (accepted : List Mined) (wallet : Wallet) : Wallet :=
  accepted.foldl (fun wallet mined => recordMined lib mined wallet) wallet

theorem coinOf_cons (lib : Btclib) {mined : Mined} {coinbase : Tx} {rest : List Tx}
    (transactions : mined.block.transactions = coinbase :: rest) :
    coinOf lib mined = some (coinbaseCoin lib mined.height coinbase) := by
  rw [coinOf, transactions]
  rfl

theorem recordBlock_of_coinOf {lib : Btclib} {mined : Mined} {coinbase : Tx}
    (coin : coinOf lib mined = some (coinbaseCoin lib mined.height coinbase)) (wallet : Wallet) :
    recordBlock lib mined.height mined.block mined.time coinbase wallet =
      recordMined lib mined wallet := by
  rw [recordMined, coin]
  rfl

theorem recordAll_utxos (lib : Btclib) (accepted : List Mined) (wallet : Wallet) :
    (recordAll lib accepted wallet).utxos = wallet.utxos ++ accepted.filterMap (coinOf lib) := by
  induction accepted generalizing wallet with
  | nil => exact (List.append_nil _).symm
  | cons mined rest ih =>
      have step : recordAll lib (mined :: rest) wallet =
          recordAll lib rest (recordMined lib mined wallet) := rfl
      rw [step, ih]
      cases found : coinOf lib mined with
      | none => simp [recordMined, found]
      | some coin => simp [recordMined, found]

theorem recordAll_tipFields (lib : Btclib) (accepted : List Mined) (wallet : Wallet) :
    (recordAll lib accepted wallet).tipFields =
      (accepted.getLast?.map fun mined =>
        (lib.blockHash mined.block.header, mined.height, mined.time)).getD wallet.tipFields := by
  induction accepted generalizing wallet with
  | nil => rfl
  | cons mined rest ih =>
      have step : recordAll lib (mined :: rest) wallet =
          recordAll lib rest (recordMined lib mined wallet) := rfl
      rw [step, ih]
      cases rest with
      | nil => rfl
      | cons next more => simp [List.getLast?_cons]

variable {lib : Btclib} {env : Environment ω} {confirm : List Tx} {before : Session ω}

/-! ## The turns of a call -/

/-- The turns after the first: the wallet records each block accepted. -/
theorem generateLoop_later (env : Environment ω) (laws : BlockLaws lib) (count : Nat) :
    ∀ session : Session ω, ∃ accepted,
      (generateLoop lib env count [] session).2.accepted = session.accepted ++ accepted ∧
      (generateLoop lib env count [] session).2.wallet = recordAll lib accepted session.wallet ∧
      (∀ mined ∈ accepted, ∃ coin, coinOf lib mined = some coin) ∧
      (generateLoop lib env accepted.length [] session).2.wallet =
        (generateLoop lib env count [] session).2.wallet := by
  induction count with
  | zero => exact fun session => ⟨[], (List.append_nil _).symm, rfl, by simp, rfl⟩
  | succ count ih =>
      intro session
      have turn := generateNext_turn lib env [] session
      rcases run : generateNext lib env [] session with ⟨result, middle⟩
      rw [run] at turn
      cases turn with
      | unmined mining =>
          rw [generateLoop_of_error run]
          exact ⟨[], (List.append_nil _).symm, rfl, by simp, rfl⟩
      | unserialized mining refused =>
          rw [generateLoop_of_error run]
          exact ⟨[], (List.append_nil _).symm, rfl, by simp, rfl⟩
      | refused submitted refusal =>
          rw [generateLoop_of_error run]
          exact ⟨[], (List.append_nil _).symm, rfl, by simp, rfl⟩
      | unread submitted added failed => exact absurd rfl added
      | headless submitted read empty =>
          obtain ⟨_, next⟩ := submitted.mined
          obtain ⟨built, -, transactions⟩ := next.coinbase laws
          rw [empty] at transactions
          cases transactions
      | @recorded mined world later wallet coinbase rest submitted read transactions =>
          obtain rfl := read.nothing
          have coin := coinOf_cons lib transactions
          have recorded := recordBlock_of_coinOf coin session.wallet
          obtain ⟨accepted, acceptedLater, walletLater, coins, replay⟩ := ih
            (session.withAccepted later mined
              (recordBlock lib mined.height mined.block mined.time coinbase session.wallet))
          refine ⟨mined :: accepted, ?_, ?_, ?_, ?_⟩
          · rw [generateLoop_of_ok run, acceptedLater]
            simp [withAccepted]
          · rw [generateLoop_of_ok run, walletLater]
            simp only [withAccepted, recorded]
            rfl
          · intro other member
            rcases List.mem_cons.mp member with rfl | member
            · exact ⟨_, coin⟩
            · exact coins other member
          · rw [List.length_cons, generateLoop_of_ok run, generateLoop_of_ok run]
            exact replay

/-- How a call leaves the wallet: as it was, no block being accepted; scanned but not
past the first block, whose mempool read raised; or past every block accepted. -/
inductive Ends (lib : Btclib) (env : Environment ω) (count : Nat) (confirm : List Tx)
    (before after : Session ω) : Prop where
  | unaccepted (sameAccepted : after.accepted = before.accepted)
      (sameWallet : after.wallet = before.wallet)
      (none : 0 < count → ∀ mined world,
        ¬ Submitted lib env confirm before mined (.ok .null) world)
  | unread {mined : Mined} {world later : ω} {error : WalletRaised} (positive : 0 < count)
      (submitted : Submitted lib env confirm before mined (.ok .null) world)
      (added : (scanOf lib confirm before).1 ≠ [])
      (failed : mempoolSpends lib env world = (.error error, later))
      (accepted : after.accepted = before.accepted ++ [mined])
      (scanned : after.wallet = afterScan lib confirm before)
  | recorded {mined : Mined} {rest : List Mined} {world later : ω} {wallet : Wallet}
      (submitted : Submitted lib env confirm before mined (.ok .null) world)
      (read : MempoolRead lib env confirm before world wallet later)
      (accepted : after.accepted = before.accepted ++ (mined :: rest))
      (recorded : after.wallet = recordAll lib (mined :: rest) wallet)
      (coins : ∀ other ∈ mined :: rest, ∃ coin, coinOf lib other = some coin)

theorem generateLoop_ends (env : Environment ω) (laws : BlockLaws lib) (count : Nat)
    (confirm : List Tx) (before : Session ω) :
    Ends lib env count confirm before (generateLoop lib env count confirm before).2 ∧
      (generateLoop lib env
        (newlyAccepted before (generateLoop lib env count confirm before).2).length confirm
          before).2.wallet = (generateLoop lib env count confirm before).2.wallet := by
  cases count with
  | zero =>
      refine ⟨.unaccepted rfl rfl fun positive => absurd positive (lt_irrefl 0), ?_⟩
      simp [newlyAccepted, generateLoop]
  | succ count =>
      have turn := generateNext_turn lib env confirm before
      rcases run : generateNext lib env confirm before with ⟨result, middle⟩
      rw [run] at turn
      cases turn with
      | unmined mining =>
          rw [generateLoop_of_error run]
          refine ⟨.unaccepted rfl rfl ?_, by simp [newlyAccepted, generateLoop]⟩
          rintro - mined world ⟨minedWorld, _, ⟨height, mining'⟩, -⟩
          rw [height, mining] at mining'
          cases mining'
      | unserialized mining refused =>
          rw [generateLoop_of_error run]
          refine ⟨.unaccepted rfl rfl ?_, by simp [newlyAccepted, generateLoop, withMined]⟩
          rintro - mined world ⟨minedWorld, _, mining', serialized, -⟩
          obtain ⟨rfl, -⟩ := mining.unique mining'
          rw [refused] at serialized
          cases serialized
      | refused submitted refusal =>
          rw [generateLoop_of_error run]
          refine ⟨.unaccepted rfl rfl ?_, by simp [newlyAccepted, generateLoop, withMined]⟩
          intro _ mined world accepted
          obtain ⟨-, rfl, -⟩ := submitted.unique accepted
          exact refusal .null rfl rfl
      | @unread mined world later error submitted added failed =>
          have one : newlyAccepted before (generateLoop lib env (count + 1) confirm before).2 =
              [mined] := by
            rw [generateLoop_of_error run]
            exact List.drop_left
          rw [one, List.length_singleton, generateLoop_of_error run, generateLoop_of_error run]
          exact ⟨.unread (Nat.succ_pos count) submitted added failed rfl rfl, rfl⟩
      | headless submitted read empty =>
          obtain ⟨_, next⟩ := submitted.mined
          obtain ⟨built, -, transactions⟩ := next.coinbase laws
          rw [empty] at transactions
          cases transactions
      | @recorded mined world later wallet coinbase rest submitted read transactions =>
          have coin := coinOf_cons lib transactions
          have recorded := recordBlock_of_coinOf coin wallet
          obtain ⟨accepted, acceptedLater, walletLater, coins, replay⟩ :=
            generateLoop_later env laws count (before.withAccepted later mined
              (recordBlock lib mined.height mined.block mined.time coinbase wallet))
          have acceptedAll : (generateLoop lib env (count + 1) confirm before).2.accepted =
              before.accepted ++ (mined :: accepted) := by
            rw [generateLoop_of_ok run, acceptedLater]
            simp [withAccepted]
          refine ⟨.recorded submitted read acceptedAll ?_ ?_, ?_⟩
          · rw [generateLoop_of_ok run, walletLater]
            simp only [withAccepted, recorded]
            rfl
          · intro other member
            rcases List.mem_cons.mp member with rfl | member
            · exact ⟨_, coin⟩
            · exact coins other member
          · have size : (newlyAccepted before
                (generateLoop lib env (count + 1) confirm before).2).length =
                accepted.length + 1 := by
              rw [newlyAccepted, acceptedAll, List.drop_left, List.length_cons]
            rw [size, generateLoop_of_ok run, generateLoop_of_ok run]
            exact replay

/-! ## The coinbases cached once -/

theorem coin_mem_outpoints {accepted : List Mined} {mined : Mined} {coin : Utxo}
    (member : mined ∈ accepted) (found : coinOf lib mined = some coin) :
    coin.outpoint ∈ coinbaseOutpoints lib accepted :=
  List.mem_map_of_mem (List.mem_filterMap.mpr ⟨mined, member, found⟩)

/-- Coinbases appended to a cache are each in it once exactly where they are distinct
and none of them was in it. -/
theorem cachedOnce_iff {cached appended : List OutPoint} :
    (∀ outpoint ∈ appended, (cached ++ appended).count outpoint = 1) ↔
      (∀ outpoint ∈ appended, outpoint ∉ cached) ∧ appended.Nodup := by
  constructor
  · intro once
    refine ⟨?_, ?_⟩
    · intro outpoint member inCache
      have one := once outpoint member
      have fromAppended := List.count_pos_iff.mpr member
      have fromCached := List.count_pos_iff.mpr inCache
      rw [List.count_append] at one
      omega
    · rw [List.nodup_iff_count_le_one]
      intro outpoint
      by_cases member : outpoint ∈ appended
      · have one := once outpoint member
        rw [List.count_append] at one
        omega
      · rw [List.count_eq_zero_of_not_mem member]
        omega
  · rintro ⟨fresh, distinct⟩ outpoint member
    rw [List.count_append, List.count_eq_zero_of_not_mem (fresh outpoint member),
      List.count_eq_one_of_mem distinct member]

theorem recordAll_outpoints (accepted : List Mined) (wallet : Wallet) :
    (recordAll lib accepted wallet).outpoints =
      wallet.outpoints ++ coinbaseOutpoints lib accepted := by
  rw [Wallet.outpoints, recordAll_utxos, List.map_append]
  rfl

/-- Past the first block scanned, the tip fields are still those before the call. -/
theorem afterScan_tipFields (lib : Btclib) (confirm : List Tx) (before : Session ω) :
    (afterScan lib confirm before).tipFields = before.wallet.tipFields := by
  obtain ⟨tip, height, time⟩ := scanConfirmed_tip lib confirm before.wallet
  simp only [Wallet.tipFields, afterScan, scanOf, Wallet.confirmAt, tip, height, time]

section Iff

variable {after : Session ω} {count : Nat}

theorem Ends.recordsAccepted (ends : Ends lib env count confirm before after)
    (agrees : Agrees lib env confirm before after) {calls : Int} (sameCount : calls.toNat = count) :
    RecordsAccepted lib env calls confirm before (newlyAccepted before after) := by
  cases ends with
  | unaccepted sameAccepted _ none =>
      have nothing : newlyAccepted before after = [] := by
        rw [newlyAccepted, sameAccepted, List.drop_length]
      rw [nothing]
      refine ⟨?_, ?_, List.nodup_nil⟩
      · intro positive mined world submitted
        exact absurd submitted (none (by omega) mined world)
      · intro _ _ _ _ _ _ outpoint member
        cases member
  | @unread mined world later error positive submitted added failed accepted scanned =>
      -- the node is a block ahead of the wallet
      have one : newlyAccepted before after = [mined] := by
        rw [newlyAccepted, accepted, List.drop_left]
      have tip := agrees.tip
      rw [one, scanned, afterScan_tipFields] at tip
      obtain ⟨_, next⟩ := submitted.mined
      have height : before.wallet.height = mined.height := (Prod.mk.inj (Prod.mk.inj tip).2).1
      have nextHeight := next.1
      omega
  | @recorded mined rest world later wallet submitted read accepted recorded coins =>
      have all : newlyAccepted before after = mined :: rest := by
        rw [newlyAccepted, accepted, List.drop_left]
      have once : ∀ outpoint ∈ coinbaseOutpoints lib (mined :: rest),
          (wallet.outpoints ++ coinbaseOutpoints lib (mined :: rest)).count outpoint = 1 := by
        intro outpoint member
        obtain ⟨coin, found, rfl⟩ := List.mem_map.mp member
        obtain ⟨block, accepted, isCoin⟩ := List.mem_filterMap.mp found
        obtain ⟨coin', isCoin', -, counted⟩ := agrees.coinbase block (all ▸ accepted)
        rw [isCoin] at isCoin'
        cases isCoin'
        rw [recorded, recordAll_outpoints] at counted
        exact counted
      obtain ⟨fresh, distinct⟩ := cachedOnce_iff.mp once
      rw [all]
      refine ⟨?_, ?_, distinct⟩
      · intro _ mined' world' submitted' added
        obtain ⟨rfl, -, rfl⟩ := submitted.unique submitted'
        cases read with
        | unneeded nothing => exact absurd nothing added
        | read _ answered => exact ⟨_, _, answered⟩
      · intro mined' world' wallet' later' submitted' read' outpoint member
        obtain ⟨rfl, -, rfl⟩ := submitted.unique submitted'
        obtain rfl := (read.unique read').1
        exact fresh outpoint member

theorem Ends.agrees (ends : Ends lib env count confirm before after) {calls : Int}
    (sameCount : calls.toNat = count)
    (replay : (generate lib env (newlyAccepted before after).length confirm before).2.wallet =
      after.wallet)
    (records : RecordsAccepted lib env calls confirm before (newlyAccepted before after)) :
    Agrees lib env confirm before after := by
  cases ends with
  | unaccepted sameAccepted sameWallet none =>
      have nothing : newlyAccepted before after = [] := by
        rw [newlyAccepted, sameAccepted, List.drop_length]
      refine ⟨?_, ?_, replay⟩
      · rw [nothing, sameWallet]
        rfl
      · rw [nothing]
        intro mined member
        cases member
  | unread positive submitted added failed accepted scanned =>
      obtain ⟨spends, later, read⟩ := records.readable (by omega) _ _ submitted added
      rw [failed] at read
      cases read
  | @recorded mined rest world later wallet submitted read accepted recorded coins =>
      have all : newlyAccepted before after = mined :: rest := by
        rw [newlyAccepted, accepted, List.drop_left]
      refine ⟨?_, ?_, replay⟩
      · rw [all, recorded, recordAll_tipFields]
        rfl
      · rw [all]
        intro block member
        obtain ⟨coin, isCoin⟩ := coins block member
        have inCache := coin_mem_outpoints member isCoin
        have fresh := records.fresh mined world wallet later submitted read
        have distinct := records.distinct
        rw [all] at fresh distinct
        refine ⟨coin, isCoin, ?_, ?_⟩
        · rw [recorded, recordAll_utxos]
          exact List.mem_append_right _ (List.mem_filterMap.mpr ⟨block, member, isCoin⟩)
        · rw [recorded, recordAll_outpoints]
          exact cachedOnce_iff.mpr ⟨fresh, distinct⟩ coin.outpoint inCache

end Iff

/-- `generate` leaves the wallet agreeing with what the node accepted exactly where the
mempool it has to read can be read and the coinbases accepted are fresh. -/
theorem generate_agrees_iff (env : Environment ω) (laws : BlockLaws lib) (count : Int)
    (confirm : List Tx) (before : Session ω) :
    Agrees lib env confirm before (generate lib env count confirm before).2 ↔
      RecordsAccepted lib env count confirm before
        (newlyAccepted before (generate lib env count confirm before).2) := by
  obtain ⟨ends, replay⟩ := generateLoop_ends env laws count.toNat confirm before
  constructor
  · intro agrees
    exact ends.recordsAccepted agrees rfl
  · intro records
    exact ends.agrees rfl replay records

/-- A node that accepts every block and lists a transaction its mempool has dropped by
the time it is asked for. -/
def forgetful : Environment Unit where
  call method _ world :=
    (match method with
      | "getrawmempool" => .ok (.array [.str "aa"])
      | "getrawtransaction" =>
          .error (.rpcError (-5) "No such mempool or blockchain transaction")
      | _ => .ok .null, world)
  clock world := (1000, world)

def payment : Tx :=
  ⟨2, 0, [⟨⟨[7], 0⟩, [], 0, PlainLib.lib.witness⟩], [⟨1000, PlainLib.lib.anyoneCanSpend⟩]⟩

def freshAtThree : Session Unit := ⟨⟨[], ∅, [1], 3, 110⟩, (), [], []⟩

theorem generate_agrees_iff_forgetful :
    Agrees PlainLib.lib forgetful [payment] freshAtThree
        (generate PlainLib.lib forgetful 2 [payment] freshAtThree).2 ↔
      RecordsAccepted PlainLib.lib forgetful 2 [payment] freshAtThree
        (newlyAccepted freshAtThree (generate PlainLib.lib forgetful 2 [payment] freshAtThree).2) :=
  generate_agrees_iff forgetful PlainLib.blockLaws 2 [payment] freshAtThree

/-- The block at height 4 is accepted, and the wallet stays at height 3. -/
theorem generate_loses_accepted_block :
    ¬ Agrees PlainLib.lib forgetful [payment] freshAtThree
      (generate PlainLib.lib forgetful 1 [payment] freshAtThree).2 := by
  intro agrees
  have height := congrArg (fun fields => fields.2.1) agrees.tip
  revert height
  decide

end Session

end BitcoinNodeTests
