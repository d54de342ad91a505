import BitcoinNodeTests.MiniWallet.Generate

/-!
# One turn of `generate`

`Turn` lists every way one turn of `generate`'s loop can end, with the answers of the
node and of the clock that led there and the session it leaves; `generateNext_turn`
says that there is no other.  Every result about `generate` is read off it.
-/

set_option autoImplicit false

namespace BitcoinNodeTests

open Foundation

section Answers

variable {ω σ α : Type}

theorem orRaise_some (error : WalletRaised) (value : α) (state : σ) :
    orRaise error (some value) state = (.ok value, state) := rfl

theorem orRaise_ok {error : WalletRaised} {answer : Option α} {state reached : σ} {value : α}
    (run : orRaise error answer state = (.ok value, reached)) :
    answer = some value ∧ reached = state := by
  cases answer with
  | none => simp [orRaise] at run
  | some found =>
      obtain ⟨rfl, rfl⟩ : found = value ∧ state = reached := by simpa [orRaise] using run
      exact ⟨rfl, rfl⟩

theorem rpcCall_of_ok {env : Environment ω} {method : String} {params : List Json}
    {world reached : ω} {answer : Json}
    (called : env.call method params world = (.ok answer, reached)) :
    rpcCall env method params world = (.ok answer, reached) := by
  simp only [rpcCall, called]

theorem rpcCall_of_error {env : Environment ω} {method : String} {params : List Json}
    {world reached : ω} {failure : RpcFailure}
    (called : env.call method params world = (.error failure, reached)) :
    rpcCall env method params world = (.error (.rpc failure), reached) := by
  simp only [rpcCall, called]

theorem Session.onWorld_of {action : Action ω WalletRaised α} {session : Session ω}
    {result : Except WalletRaised α} {reached : ω} (run : action session.world = (result, reached)) :
    Session.onWorld action session = (result, { session with world := reached }) := by
  simp only [Session.onWorld, run]

end Answers

/-! ## The block mined -/

/-- `mined` solves the block on `tip` that carries `extra` behind the coinbase of its
height and bears its time. -/
structure SolvedFor (lib : Btclib) (tip scriptPubKey : List Octet) (extra : List Tx)
    (mined : Mined) : Prop where
  built : ∃ coinbase candidate,
    lib.buildCoinbase mined.height scriptPubKey REGTEST_SUBSIDY_HALVING_INTERVAL = some coinbase ∧
      lib.buildBlock tip (coinbase :: extra) mined.time lib.miningVersion = some candidate ∧
      lib.mine candidate.header = some mined.block.header ∧
      mined.block.transactions = candidate.transactions

theorem mineOne_ok {ω : Type} {lib : Btclib} {env : Environment ω} {tip : List Octet}
    {height minTime : Int} {scriptPubKey : List Octet} {extra : List Tx} {world reached : ω}
    {block : Block} {time : Int}
    (run : mineOne lib env tip height minTime scriptPubKey extra (.default lib) world =
      (.ok (block, time), reached)) :
    minTime < time ∧ SolvedFor lib tip scriptPubKey extra ⟨height, block, time⟩ ∧
      reached = (env.clock world).2 := by
  unfold mineOne at run
  obtain ⟨coinbase, world1, coinbaseRun, timeAndRest⟩ := Action.bind_ok_iff.mp run
  obtain ⟨coinbaseBuilt, sameWorld1⟩ := orRaise_ok coinbaseRun
  obtain ⟨blockTime, world2, timeRun, rest⟩ := Action.bind_ok_iff.mp timeAndRest
  rw [sameWorld1] at timeRun
  have timed : max (env.clock world).1 (minTime + 1) = blockTime ∧
      (env.clock world).2 = world2 := by
    simpa [MineOptions.default, chooseTime, now, Action.bind_apply] using timeRun
  obtain ⟨sameTime, sameWorld2⟩ := timed
  split at rest
  · obtain ⟨candidate, world3, buildRun, mineAndRest⟩ := Action.bind_ok_iff.mp rest
    obtain ⟨built, sameWorld3⟩ := orRaise_ok buildRun
    obtain ⟨solved, world4, mineRun, last⟩ := Action.bind_ok_iff.mp mineAndRest
    obtain ⟨mined, sameWorld4⟩ := orRaise_ok mineRun
    simp only [Action.pure_apply, Prod.mk.injEq, Except.ok.injEq] at last
    obtain ⟨⟨rfl, rfl⟩, sameReached⟩ := last
    refine ⟨by omega, ⟨coinbase, candidate, ?_, built, mined, rfl⟩, ?_⟩
    · simpa [coinbaseFor, MineOptions.default] using coinbaseBuilt
    · rw [← sameReached, sameWorld4, sameWorld3, sameWorld2]
  · simp at rest

namespace Session

section Turns

variable {ω : Type}

def withMined (session : Session ω) (world : ω) (mined : Mined) : Session ω :=
  { session with world := world, mined := session.mined ++ [mined] }

/-- The session once the node accepts a block mined, `wallet` being the cache left. -/
def withAccepted (session : Session ω) (world : ω) (mined : Mined) (wallet : Wallet) :
    Session ω where
  wallet := wallet
  world := world
  mined := session.mined ++ [mined]
  accepted := session.accepted ++ [mined]

variable (lib : Btclib) (env : Environment ω) (extra : List Tx) (session : Session ω)

def scanOf : List OutPoint × Wallet := session.wallet.scanConfirmed lib extra

/-- The cache once an accepted block's transactions are scanned and confirmed. -/
def afterScan : Wallet := (scanOf lib extra session).2.confirmAt lib (session.wallet.height + 1) extra

def MinedNext (mined : Mined) (world : ω) : Prop :=
  mined.height = session.wallet.height + 1 ∧
    mineOne lib env session.wallet.tip mined.height session.wallet.lastTime lib.anyoneCanSpend
      extra (.default lib) session.world = (.ok (mined.block, mined.time), world)

def Submitted (mined : Mined) (outcome : Except RpcFailure Json) (world : ω) : Prop :=
  ∃ before octets, MinedNext lib env extra session mined before ∧
    lib.serializeBlock mined.block = some octets ∧
    env.call "submitblock" [.str (hex octets)] before = (outcome, world)

inductive MempoolRead (world : ω) : Wallet → ω → Prop where
  | unneeded (nothing : (scanOf lib extra session).1 = []) :
      MempoolRead world (afterScan lib extra session) world
  | read {spends : List OutPoint} {later : ω} (added : (scanOf lib extra session).1 ≠ [])
      (answered : mempoolSpends lib env world = (.ok spends, later)) :
      MempoolRead world
        ((afterScan lib extra session).forget
          ((scanOf lib extra session).1.filter (· ∈ spends))) later

inductive Turn : Except WalletRaised (List Octet) × Session ω → Prop where
  | unmined {error : WalletRaised} {world : ω}
      (mining : mineOne lib env session.wallet.tip (session.wallet.height + 1)
        session.wallet.lastTime lib.anyoneCanSpend extra (.default lib) session.world =
          (.error error, world)) :
      Turn (.error error, { session with world := world })
  | unserialized {mined : Mined} {world : ω} (mining : MinedNext lib env extra session mined world)
      (refused : lib.serializeBlock mined.block = none) :
      Turn (.error .btclibValueError, session.withMined world mined)
  | refused {mined : Mined} {outcome : Except RpcFailure Json} {world : ω} {error : WalletRaised}
      (submitted : Submitted lib env extra session mined outcome world)
      (refusal : ∀ answer, outcome = .ok answer → answer ≠ .null) :
      Turn (.error error, session.withMined world mined)
  | unread {mined : Mined} {world later : ω} {error : WalletRaised}
      (submitted : Submitted lib env extra session mined (.ok .null) world)
      (added : (scanOf lib extra session).1 ≠ [])
      (failed : mempoolSpends lib env world = (.error error, later)) :
      Turn (.error error, session.withAccepted later mined (afterScan lib extra session))
  | headless {mined : Mined} {world later : ω} {wallet : Wallet}
      (submitted : Submitted lib env extra session mined (.ok .null) world)
      (read : MempoolRead lib env extra session world wallet later)
      (empty : mined.block.transactions = []) :
      Turn (.error .indexError, session.withAccepted later mined wallet)
  | recorded {mined : Mined} {world later : ω} {wallet : Wallet} {coinbase : Tx} {rest : List Tx}
      (submitted : Submitted lib env extra session mined (.ok .null) world)
      (read : MempoolRead lib env extra session world wallet later)
      (transactions : mined.block.transactions = coinbase :: rest) :
      Turn (.ok (lib.blockHash mined.block.header),
        session.withAccepted later mined
          (recordBlock lib mined.height mined.block mined.time coinbase wallet))

variable {lib env extra session}

theorem forgetMempoolSpends_ok {added : List OutPoint} {reached : Session ω}
    (run : forgetMempoolSpends lib env added session = (.ok (), reached)) :
    (added = [] ∧ reached = session) ∨
      ∃ spends later, added ≠ [] ∧ mempoolSpends lib env session.world = (.ok spends, later) ∧
        reached = { session with
          wallet := session.wallet.forget (added.filter (· ∈ spends))
          world := later } := by
  unfold forgetMempoolSpends at run
  by_cases nothing : added = []
  · rw [if_pos nothing] at run
    exact Or.inl ⟨nothing, by simpa using run.symm⟩
  · rw [if_neg nothing, Action.bind_apply] at run
    simp only [onWorld] at run
    rcases answered : mempoolSpends lib env session.world with ⟨error | spends, later⟩
    · simp [answered] at run
    · simp only [answered, onWallet, Action.update_apply, Prod.mk.injEq, true_and] at run
      exact Or.inr ⟨spends, later, nothing, rfl, run.symm⟩

theorem forgetMempoolSpends_error {added : List OutPoint} {reached : Session ω}
    {error : WalletRaised}
    (run : forgetMempoolSpends lib env added session = (.error error, reached)) :
    ∃ later, added ≠ [] ∧ mempoolSpends lib env session.world = (.error error, later) ∧
      reached = { session with world := later } := by
  unfold forgetMempoolSpends at run
  by_cases nothing : added = []
  · rw [if_pos nothing] at run
    simp at run
  · rw [if_neg nothing, Action.bind_apply] at run
    simp only [onWorld] at run
    rcases answered : mempoolSpends lib env session.world with ⟨failure | spends, later⟩
    · simp only [answered, Prod.mk.injEq, Except.error.injEq] at run
      obtain ⟨rfl, rfl⟩ := run
      exact ⟨later, nothing, rfl, rfl⟩
    · simp [answered, onWallet] at run

theorem expectAccepted_error {σ : Type} {height : Int} {answer : Json} (refusal : answer ≠ .null)
    (state : σ) : expectAccepted height answer state =
      (.error (.answered s!"submitblock refused height {height}: " answer ""), state) := by
  cases answer with
  | null => exact absurd rfl refusal
  | bool value => rfl
  | int value => rfl
  | real text => rfl
  | str text => rfl
  | array items => rfl
  | object fields => rfl

theorem Submitted.turn {mined : Mined} {world : ω}
    (submitted : Submitted lib env extra session mined (.ok .null) world) :
    Turn lib env extra session
      ((do
        scanAccepted lib env mined.height extra
        let coinbase ← orRaise .indexError mined.block.transactions.head?
        onWallet (recordBlock lib mined.height mined.block mined.time coinbase)
        pure (lib.blockHash mined.block.header))
        (session.withAccepted world mined session.wallet)) := by
  have sameHeight : mined.height = session.wallet.height + 1 := by
    obtain ⟨_, _, next, _⟩ := submitted
    exact next.1
  have scanned : scanAccepted lib env mined.height extra
      (session.withAccepted world mined session.wallet) =
      forgetMempoolSpends lib env (scanOf lib extra session).1
        (session.withAccepted world mined (afterScan lib extra session)) := by
    rw [sameHeight]
    rfl
  rw [Action.bind_apply, scanned]
  rcases run : forgetMempoolSpends lib env (scanOf lib extra session).1
    (session.withAccepted world mined (afterScan lib extra session)) with ⟨error | done, reached⟩
  · obtain ⟨later, added, failed, rfl⟩ := forgetMempoolSpends_error run
    exact .unread submitted added failed
  · have read : ∃ wallet later, MempoolRead lib env extra session world wallet later ∧
        reached = session.withAccepted later mined wallet := by
      rcases forgetMempoolSpends_ok run with
        ⟨nothing, rfl⟩ | ⟨spends, later, added, answered, rfl⟩
      · exact ⟨_, _, .unneeded nothing, rfl⟩
      · exact ⟨_, _, .read added answered, rfl⟩
    obtain ⟨wallet, later, read, rfl⟩ := read
    cases transactions : mined.block.transactions with
    | nil => exact .headless submitted read transactions
    | cons coinbase rest => exact .recorded submitted read transactions

theorem generateNext_turn (lib : Btclib) (env : Environment ω) (extra : List Tx)
    (session : Session ω) : Turn lib env extra session (generateNext lib env extra session) := by
  unfold generateNext
  rw [Action.read_bind, Action.bind_apply]
  simp only [onWorld]
  rcases mining : mineOne lib env session.wallet.tip (session.wallet.height + 1)
    session.wallet.lastTime lib.anyoneCanSpend extra (.default lib) session.world with
    ⟨error | ⟨block, time⟩, world⟩
  · exact .unmined mining
  · have minedNext : MinedNext lib env extra session
        ⟨session.wallet.height + 1, block, time⟩ world := ⟨rfl, mining⟩
    simp only [Action.update_bind]
    cases serialized : lib.serializeBlock block with
    | none => exact .unserialized minedNext serialized
    | some octets =>
        rw [Action.bind_of_ok _ (orRaise_some _ octets _)]
        rcases answered : env.call "submitblock" [.str (hex octets)] world with
          ⟨failure | answer, submittedWorld⟩
        · have submitted : Submitted lib env extra session
              ⟨session.wallet.height + 1, block, time⟩ (.error failure) submittedWorld :=
            ⟨world, octets, minedNext, serialized, answered⟩
          rw [Action.bind_of_error _ (onWorld_of (rpcCall_of_error answered))]
          exact .refused submitted fun _ impossible => by cases impossible
        · have submitted : Submitted lib env extra session
              ⟨session.wallet.height + 1, block, time⟩ (.ok answer) submittedWorld :=
            ⟨world, octets, minedNext, serialized, answered⟩
          rw [Action.bind_of_ok _ (onWorld_of (rpcCall_of_ok answered))]
          by_cases accepted : answer = .null
          · subst accepted
            have plain : ∀ state : Session ω,
                expectAccepted (session.wallet.height + 1) .null state = (.ok (), state) :=
              fun _ => rfl
            rw [Action.bind_of_ok _ (plain _)]
            exact submitted.turn
          · rw [Action.bind_of_error _ (expectAccepted_error accepted _)]
            refine .refused submitted ?_
            intro given sameAnswer isNull
            cases sameAnswer
            exact accepted isNull

/-! ## The answers a turn met -/

variable {confirm : List Tx} {before : Session ω}

theorem MinedNext.coinbase (laws : BlockLaws lib) {mined : Mined} {world : ω}
    (next : MinedNext lib env confirm before mined world) :
    ∃ built, lib.buildCoinbase mined.height lib.anyoneCanSpend REGTEST_SUBSIDY_HALVING_INTERVAL =
        some built ∧
      mined.block.transactions = lib.commitWitnesses built confirm :: confirm := by
  obtain ⟨-, solved, -⟩ := mineOne_ok next.2
  obtain ⟨built, candidate, coinbase, candidateBuilt, -, same⟩ := solved.built
  exact ⟨built, coinbase, same.trans (laws.transactions candidateBuilt)⟩

theorem Submitted.mined {mined : Mined} {outcome : Except RpcFailure Json} {world : ω}
    (submitted : Submitted lib env confirm before mined outcome world) :
    ∃ minedWorld, MinedNext lib env confirm before mined minedWorld := by
  obtain ⟨minedWorld, _, next, -⟩ := submitted
  exact ⟨minedWorld, next⟩

theorem MinedNext.unique {mined mined' : Mined} {world world' : ω}
    (next : MinedNext lib env confirm before mined world)
    (again : MinedNext lib env confirm before mined' world') : mined = mined' ∧ world = world' := by
  obtain ⟨height, mining⟩ := next
  obtain ⟨height', mining'⟩ := again
  obtain ⟨number, block, time⟩ := mined
  obtain ⟨number', block', time'⟩ := mined'
  simp only at height height' mining mining'
  subst height height'
  rw [mining] at mining'
  obtain ⟨⟨rfl, rfl⟩, rfl⟩ : (block = block' ∧ time = time') ∧ world = world' := by
    simpa using mining'
  exact ⟨rfl, rfl⟩

theorem Submitted.unique {mined mined' : Mined} {outcome outcome' : Except RpcFailure Json}
    {world world' : ω} (submitted : Submitted lib env confirm before mined outcome world)
    (again : Submitted lib env confirm before mined' outcome' world') :
    mined = mined' ∧ outcome = outcome' ∧ world = world' := by
  obtain ⟨middle, octets, next, serialized, answered⟩ := submitted
  obtain ⟨middle', octets', next', serialized', answered'⟩ := again
  obtain ⟨rfl, rfl⟩ := next.unique next'
  rw [serialized] at serialized'
  cases serialized'
  rw [answered] at answered'
  cases answered'
  exact ⟨rfl, rfl, rfl⟩

/-- A block that carries nothing changes no coin before it is recorded. -/
theorem MempoolRead.nothing {session : Session ω} {world later : ω} {wallet : Wallet}
    (read : MempoolRead lib env [] session world wallet later) : wallet = session.wallet := by
  cases read with
  | unneeded _ => simp [afterScan, scanOf, Wallet.scanConfirmed, Wallet.confirmAt]
  | read added _ => exact absurd rfl added

theorem MempoolRead.unique {world later later' : ω} {wallet wallet' : Wallet}
    (read : MempoolRead lib env confirm before world wallet later)
    (again : MempoolRead lib env confirm before world wallet' later') :
    wallet = wallet' ∧ later = later' := by
  cases read with
  | unneeded nothing =>
      cases again with
      | unneeded _ => exact ⟨rfl, rfl⟩
      | read added _ => exact absurd nothing added
  | read added answered =>
      cases again with
      | unneeded nothing => exact absurd nothing added
      | read _ answered' =>
          rw [answered] at answered'
          cases answered'
          exact ⟨rfl, rfl⟩

theorem scanConfirmed_tip (lib : Btclib) (confirm : List Tx) (wallet : Wallet) :
    (wallet.scanConfirmed lib confirm).2.tip = wallet.tip ∧
      (wallet.scanConfirmed lib confirm).2.height = wallet.height ∧
      (wallet.scanConfirmed lib confirm).2.lastTime = wallet.lastTime := by
  induction confirm generalizing wallet with
  | nil => exact ⟨rfl, rfl, rfl⟩
  | cons tx rest ih =>
      rw [Wallet.scanConfirmed]
      split
      · exact ih _
      · exact ih _

theorem MempoolRead.tip {extra : List Tx} {session : Session ω} {world later : ω} {wallet : Wallet}
    (read : MempoolRead lib env extra session world wallet later) :
    wallet.tip = session.wallet.tip ∧ wallet.height = session.wallet.height ∧
      wallet.lastTime = session.wallet.lastTime := by
  cases read with
  | unneeded nothing => exact scanConfirmed_tip lib extra session.wallet
  | read added answered => exact scanConfirmed_tip lib extra session.wallet

/-! ## The loop -/

theorem generateLoop_of_error {count : Nat} {middle : Session ω} {error : WalletRaised}
    (run : generateNext lib env extra session = (.error error, middle)) :
    generateLoop lib env (count + 1) extra session = (.error error, middle) := by
  rw [generateLoop, Action.bind_of_error _ run]

theorem generateLoop_of_ok {count : Nat} {middle : Session ω} {hash : List Octet}
    (run : generateNext lib env extra session = (.ok hash, middle)) :
    generateLoop lib env (count + 1) extra session =
      ((generateLoop lib env count [] middle).1.map (hash :: ·),
        (generateLoop lib env count [] middle).2) := by
  rw [generateLoop, Action.bind_of_ok _ run, Action.bind_apply]
  rcases generateLoop lib env count [] middle with ⟨error | hashes, reached⟩
  · rfl
  · rfl

end Turns

end Session

end BitcoinNodeTests
