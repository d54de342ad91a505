import BitcoinNodeTests.Foundation.Median
import BitcoinNodeTests.MiniWallet.PlainLib
import BitcoinNodeTests.MiniWallet.Turn

/-!
# The times of the blocks mined

The wallet never sees the window of times whose median the node holds a block
against: it starts from that median and then keeps its own last time.  What carries
every run is that a majority of the window is at most that last time, which each
block mined later keeps so, whatever the foreign times beside it and the clock are.
-/

set_option autoImplicit false

namespace BitcoinNodeTests

open Foundation

def MEDIAN_TIME_SPAN : Nat := 11

def medianTimePast (times : List Int) : Option Int := median (lastOf MEDIAN_TIME_SPAN times)

/-- A chain as a miner on it sees it: its tip, the tip's height, the time the next
block has to be later than, and the times of all its blocks. -/
structure ChainEnd where
  tip : List Octet
  height : Int
  last : Int
  times : List Int

namespace ChainEnd

variable (lib : Btclib)

def extend (chain : ChainEnd) (mined : Mined) : ChainEnd where
  tip := lib.blockHash mined.block.header
  height := mined.height
  last := mined.time
  times := chain.times ++ [mined.time]

def extendAll (chain : ChainEnd) (blocks : List Mined) : ChainEnd := blocks.foldl (extend lib) chain

/-- A block on the chain's tip, at the next height and later than its last time and
its median time past. -/
structure Next (scriptPubKey : List Octet) (extra : List Tx) (chain : ChainEnd) (mined : Mined) :
    Prop where
  solved : SolvedFor lib chain.tip scriptPubKey extra mined
  previous : mined.block.header.previousBlockHash = chain.tip
  nextHeight : mined.height = chain.height + 1
  sameTime : mined.block.header.time = mined.time
  later : chain.last < mined.time
  notTooOld : ∀ past, medianTimePast chain.times = some past → past < mined.time

def Follows (scriptPubKey : List Octet) : ChainEnd → List Mined → Prop
  | _, [] => True
  | chain, mined :: rest =>
      (∃ extra, Next lib scriptPubKey extra chain mined) ∧
        Follows scriptPubKey (chain.extend lib mined) rest

def Settled (chain : ChainEnd) : Prop := Majority chain.last (lastOf MEDIAN_TIME_SPAN chain.times)

end ChainEnd

theorem ChainEnd.Settled.extend {chain : ChainEnd} (settled : chain.Settled) (lib : Btclib)
    {mined : Mined} (later : chain.last < mined.time) : (chain.extend lib mined).Settled := by
  have positive : 0 < MEDIAN_TIME_SPAN := by decide
  exact Majority.push positive settled later

/-- The median time past of a settled chain is at most its last time. -/
theorem ChainEnd.Settled.median_le {chain : ChainEnd} (settled : chain.Settled) {past : Int}
    (found : medianTimePast chain.times = some past) : past ≤ chain.last :=
  (median_le_iff found chain.last).mpr settled

/-- A block solved later than a settled chain's last time is the chain's next. -/
theorem SolvedFor.next {lib : Btclib} (laws : BlockLaws lib) {chain : ChainEnd}
    {scriptPubKey : List Octet} {extra : List Tx} {mined : Mined} (settled : chain.Settled)
    (solved : SolvedFor lib chain.tip scriptPubKey extra mined)
    (nextHeight : mined.height = chain.height + 1) (later : chain.last < mined.time) :
    chain.Next lib scriptPubKey extra mined := by
  obtain ⟨coinbase, candidate, -, built, mining, -⟩ := solved.built
  obtain ⟨builtPrevious, builtTime⟩ := laws.build built
  obtain ⟨keptPrevious, keptTime⟩ := laws.mine mining
  refine ⟨solved, ?_, nextHeight, ?_, later, ?_⟩
  · rw [keptPrevious, builtPrevious]
  · rw [keptTime, builtTime]
  · intro past found
    have bound := settled.median_le found
    omega

theorem ChainEnd.follows_single {lib : Btclib} {chain : ChainEnd} {scriptPubKey : List Octet}
    {extra : List Tx} {mined : Mined} (next : chain.Next lib scriptPubKey extra mined) :
    chain.Follows lib scriptPubKey [mined] :=
  ⟨⟨extra, next⟩, trivial⟩

theorem ChainEnd.follows_append {lib : Btclib} {scriptPubKey : List Octet}
    (first second : List Mined) {chain : ChainEnd} :
    chain.Follows lib scriptPubKey (first ++ second) ↔
      chain.Follows lib scriptPubKey first ∧
        (chain.extendAll lib first).Follows lib scriptPubKey second := by
  induction first generalizing chain with
  | nil => exact ⟨fun follows => ⟨trivial, follows⟩, fun both => both.2⟩
  | cons mined rest ih =>
      have extended : chain.extendAll lib (mined :: rest) =
          (chain.extend lib mined).extendAll lib rest := rfl
      simp only [List.cons_append, ChainEnd.Follows, extended, ih, and_assoc]

/-! ## `generate` -/

namespace Session

variable {ω : Type} {lib : Btclib} {env : Environment ω}

structure StandsAt (chain : ChainEnd) (session : Session ω) : Prop where
  tip : session.wallet.tip = chain.tip
  height : session.wallet.height = chain.height
  last : session.wallet.lastTime = chain.last
  settled : chain.Settled

theorem MinedNext.next (laws : BlockLaws lib) {chain : ChainEnd} {extra : List Tx}
    {session : Session ω} {mined : Mined} {world : ω} (stands : StandsAt chain session)
    (next : MinedNext lib env extra session mined world) :
    chain.Next lib lib.anyoneCanSpend extra mined := by
  obtain ⟨nextHeight, mining⟩ := next
  rw [stands.tip, stands.last] at mining
  rw [stands.height] at nextHeight
  obtain ⟨later, solved, -⟩ := mineOne_ok mining
  exact solved.next laws stands.settled nextHeight later

/-- The blocks of some turns of the loop: each extends the chain, and the wallet ends
past those recorded, at most one more having been mined. -/
def LoopFollows (lib : Btclib) (chain : ChainEnd) (session reached : Session ω)
    (returned : Prop) : Prop :=
  ∃ recorded unrecorded, reached.mined = session.mined ++ (recorded ++ unrecorded) ∧
    unrecorded.length ≤ 1 ∧ (returned → unrecorded = []) ∧
    chain.Follows lib lib.anyoneCanSpend (recorded ++ unrecorded) ∧
    StandsAt (chain.extendAll lib recorded) reached

theorem StandsAt.same {chain : ChainEnd} {session reached : Session ω}
    (stands : StandsAt chain session)
    (same : reached.wallet.tip = session.wallet.tip ∧
      reached.wallet.height = session.wallet.height ∧
      reached.wallet.lastTime = session.wallet.lastTime) : StandsAt chain reached :=
  ⟨same.1.trans stands.tip, same.2.1.trans stands.height, same.2.2.trans stands.last,
    stands.settled⟩

/-- One turn either moves the wallet past a block on the chain or raises, leaving it
where it was with at most one block mined. -/
theorem Turn.follows (laws : BlockLaws lib) {chain : ChainEnd} {extra : List Tx}
    {session : Session ω} {result : Except WalletRaised (List Octet) × Session ω}
    (stands : StandsAt chain session) (turn : Turn lib env extra session result) :
    (∃ hash mined, result.1 = .ok hash ∧ result.2.mined = session.mined ++ [mined] ∧
        chain.Next lib lib.anyoneCanSpend extra mined ∧
        StandsAt (chain.extend lib mined) result.2) ∨
      ∃ error unrecorded, result.1 = .error error ∧
        result.2.mined = session.mined ++ unrecorded ∧ unrecorded.length ≤ 1 ∧
        chain.Follows lib lib.anyoneCanSpend unrecorded ∧ StandsAt chain result.2 := by
  cases turn with
  | @unmined error world mining =>
      exact Or.inr ⟨error, [], rfl, (List.append_nil _).symm, by simp, trivial,
        stands.same ⟨rfl, rfl, rfl⟩⟩
  | @unserialized mined world mining refused =>
      have next := mining.next laws stands
      exact Or.inr ⟨_, [mined], rfl, rfl, by simp, ChainEnd.follows_single next,
        stands.same ⟨rfl, rfl, rfl⟩⟩
  | @refused mined outcome world error submitted refusal =>
      obtain ⟨_, _, mining, -⟩ := submitted
      have next := mining.next laws stands
      exact Or.inr ⟨_, [mined], rfl, rfl, by simp, ChainEnd.follows_single next,
        stands.same ⟨rfl, rfl, rfl⟩⟩
  | @unread mined world later error submitted added failed =>
      obtain ⟨_, _, mining, -⟩ := submitted
      have next := mining.next laws stands
      exact Or.inr ⟨_, [mined], rfl, rfl, by simp, ChainEnd.follows_single next,
        stands.same (scanConfirmed_tip lib extra session.wallet)⟩
  | @headless mined world later wallet submitted read empty =>
      obtain ⟨_, _, mining, -⟩ := submitted
      have next := mining.next laws stands
      exact Or.inr ⟨_, [mined], rfl, rfl, by simp, ChainEnd.follows_single next,
        stands.same read.tip⟩
  | @recorded mined world later wallet coinbase rest submitted read transactions =>
      obtain ⟨_, _, mining, -⟩ := submitted
      have next := mining.next laws stands
      exact Or.inl ⟨_, mined, rfl, rfl, next, rfl, rfl, rfl,
        stands.settled.extend lib next.later⟩

theorem generateLoop_follows (env : Environment ω) (laws : BlockLaws lib) (count : Nat) :
    ∀ (confirm : List Tx) (chain : ChainEnd) (session : Session ω), StandsAt chain session →
      LoopFollows lib chain session (generateLoop lib env count confirm session).2
        (∃ hashes, (generateLoop lib env count confirm session).1 = .ok hashes) := by
  induction count with
  | zero =>
      intro confirm chain session stands
      exact ⟨[], [], by simp [generateLoop], by simp, fun _ => rfl, trivial, stands⟩
  | succ count ih =>
      intro confirm chain session stands
      have turn := generateNext_turn lib env confirm session
      rcases run : generateNext lib env confirm session with ⟨result, middle⟩
      rw [run] at turn
      rcases turn.follows laws stands with
        ⟨hash, mined, returned, minedHere, next, standsNext⟩ |
        ⟨error, unrecorded, raised, minedHere, few, follows, standsStill⟩
      · obtain ⟨recorded, unrecorded, minedLater, few, complete, follows, standsAfter⟩ :=
          ih [] (chain.extend lib mined) middle standsNext
        simp only at returned minedHere
        subst returned
        rw [generateLoop_of_ok run]
        refine ⟨mined :: recorded, unrecorded, ?_, few, ?_, ⟨⟨confirm, next⟩, follows⟩, standsAfter⟩
        · rw [minedLater, minedHere, List.append_assoc]
          rfl
        · rintro ⟨hashes, returned⟩
          apply complete
          cases outcome : (generateLoop lib env count [] middle).1 with
          | ok later => exact ⟨later, rfl⟩
          | error error =>
              rw [outcome] at returned
              cases returned
      · simp only at raised minedHere
        subst raised
        rw [generateLoop_of_error run]
        refine ⟨[], unrecorded, minedHere, few, ?_, follows, standsStill⟩
        rintro ⟨hashes, impossible⟩
        cases impossible

/-! ## Runs of calls -/

/-- Each call mines blocks that follow one another from the end of those recorded so
far; it records all of them where it returns, and all but one at least otherwise. -/
def CallsFollow (lib : Btclib) (env : Environment ω) :
    List (Int × List Tx) → ChainEnd → Session ω → Prop
  | [], _, _ => True
  | (count, confirm) :: calls, chain, session =>
      let (result, reached) := generate lib env count confirm session
      ∃ recorded unrecorded, reached.mined = session.mined ++ (recorded ++ unrecorded) ∧
        unrecorded.length ≤ 1 ∧ ((∃ hashes, result = .ok hashes) → unrecorded = []) ∧
        chain.Follows lib lib.anyoneCanSpend (recorded ++ unrecorded) ∧
        CallsFollow lib env calls (chain.extendAll lib recorded) reached

theorem callsFollow (laws : BlockLaws lib) (calls : List (Int × List Tx)) :
    ∀ (chain : ChainEnd) (session : Session ω), StandsAt chain session →
      CallsFollow lib env calls chain session := by
  induction calls with
  | nil => exact fun _ _ _ => trivial
  | cons call calls ih =>
      obtain ⟨count, confirm⟩ := call
      intro chain session stands
      obtain ⟨recorded, unrecorded, mined, few, complete, follows, standsAfter⟩ :=
        generateLoop_follows env laws count.toNat confirm chain session stands
      exact ⟨recorded, unrecorded, mined, few, complete, follows, ih _ _ standsAfter⟩

def generateAll (lib : Btclib) (env : Environment ω) :
    List (Int × List Tx) → Action (Session ω) WalletRaised (List (List (List Octet)))
  | [] => pure []
  | (count, confirm) :: calls => do
      let hashes ← generate lib env count confirm
      let rest ← generateAll lib env calls
      pure (hashes :: rest)

/-- Where every call returns, the blocks mined are one sequence on the chain. -/
theorem generateAll_follows (laws : BlockLaws lib) (calls : List (Int × List Tx)) :
    ∀ {chain : ChainEnd} {session reached : Session ω} {hashes : List (List (List Octet))},
      StandsAt chain session → generateAll lib env calls session = (.ok hashes, reached) →
      ∃ mined, reached.mined = session.mined ++ mined ∧
        chain.Follows lib lib.anyoneCanSpend mined := by
  induction calls with
  | nil =>
      intro chain session reached hashes _ run
      obtain ⟨-, rfl⟩ : [] = hashes ∧ session = reached := by simpa [generateAll] using run
      exact ⟨[], (List.append_nil _).symm, trivial⟩
  | cons call calls ih =>
      obtain ⟨count, confirm⟩ := call
      intro chain session reached hashes stands run
      obtain ⟨first, middle, firstRun, restRun⟩ := Action.bind_ok_iff.mp run
      obtain ⟨rest, final, laterRun, last⟩ := Action.bind_ok_iff.mp restRun
      obtain ⟨-, rfl⟩ : first :: rest = hashes ∧ final = reached := by simpa using last
      obtain ⟨recorded, unrecorded, minedFirst, -, complete, follows, standsMiddle⟩ :=
        generateLoop_follows env laws count.toNat confirm chain session stands
      have loopRun : generateLoop lib env count.toNat confirm session = (.ok first, middle) :=
        firstRun
      rw [loopRun] at minedFirst complete standsMiddle
      obtain rfl := complete ⟨first, rfl⟩
      rw [List.append_nil] at minedFirst follows
      obtain ⟨later, minedLater, followsLater⟩ := ih standsMiddle laterRun
      refine ⟨recorded ++ later, ?_, (ChainEnd.follows_append recorded later).mpr
        ⟨follows, followsLater⟩⟩
      rw [minedLater, minedFirst, List.append_assoc]

/-- The session a construction or a `resync` leaves, its node having answered `tip`,
`height` and `medianTime`. -/
def StartedAt (env : Environment ω) (tip : List Octet) (height medianTime : Int)
    (session : Session ω) : Prop :=
  (∃ world, (readTip env world).1 = .ok (tip, height, medianTime) ∧
      construct env world = (.ok session.wallet, session.world)) ∨
    ∃ before, (readTip env before.world).1 = .ok (tip, height, medianTime) ∧
      resync env before = (.ok (), session)

theorem resyncCoin_tip {index : Nat} {utxo : Utxo} {session reached : Session ω}
    (run : resyncCoin env index utxo session = (.ok (), reached)) :
    reached.wallet.tip = session.wallet.tip ∧ reached.wallet.height = session.wallet.height ∧
      reached.wallet.lastTime = session.wallet.lastTime := by
  unfold resyncCoin at run
  by_cases coinbase : utxo.coinbase
  · rw [if_pos coinbase] at run
    obtain rfl : session = reached := by simpa using run
    exact ⟨rfl, rfl, rfl⟩
  · rw [if_neg coinbase, Action.read_bind] at run
    obtain ⟨height, middle, heightRun, setRun⟩ := Action.bind_ok_iff.mp run
    have sameWallet : middle.wallet = session.wallet := by
      simp only [onWorld, Prod.mk.injEq] at heightRun
      rw [← heightRun.2]
    simp only [onWallet, Action.update_apply, Prod.mk.injEq, true_and] at setRun
    rw [← setRun, ← sameWallet]
    exact ⟨rfl, rfl, rfl⟩

theorem resyncFrom_tip (utxos : List Utxo) :
    ∀ {index : Nat} {session reached : Session ω},
      resyncFrom env index utxos session = (.ok (), reached) →
      reached.wallet.tip = session.wallet.tip ∧ reached.wallet.height = session.wallet.height ∧
        reached.wallet.lastTime = session.wallet.lastTime := by
  induction utxos with
  | nil =>
      intro index session reached run
      obtain rfl : session = reached := by simpa [resyncFrom] using run
      exact ⟨rfl, rfl, rfl⟩
  | cons utxo rest ih =>
      intro index session reached run
      obtain ⟨_, middle, coinRun, restRun⟩ := Action.bind_ok_iff.mp run
      obtain ⟨sameTip, sameHeight, sameTime⟩ := resyncCoin_tip coinRun
      obtain ⟨restTip, restHeight, restTime⟩ := ih restRun
      exact ⟨restTip.trans sameTip, restHeight.trans sameHeight, restTime.trans sameTime⟩

theorem StartedAt.standsAt {tip : List Octet} {times : List Int} {height median : Int}
    {session : Session ω} (started : StartedAt env tip height median session)
    (isMedian : medianTimePast times = some median) :
    StandsAt ⟨tip, height, median, times⟩ session := by
  have settled : ChainEnd.Settled ⟨tip, height, median, times⟩ :=
    (median_le_iff isMedian median).mp le_rfl
  rcases started with ⟨world, answered, constructed⟩ | ⟨before, answered, resynced⟩
  · obtain ⟨found, reached, readRun, rest⟩ := Action.bind_ok_iff.mp constructed
    rw [readRun] at answered
    cases answered
    simp only [Action.pure_apply, Prod.mk.injEq, Except.ok.injEq] at rest
    refine ⟨?_, ?_, ?_, settled⟩
    · rw [← rest.1]
    · rw [← rest.1]
    · rw [← rest.1]
  · obtain ⟨found, middle, readRun, rest⟩ := Action.bind_ok_iff.mp resynced
    have sameFound : (readTip env before.world).1 = .ok found := by
      simp only [onWorld, Prod.mk.injEq] at readRun
      exact readRun.1
    rw [sameFound] at answered
    cases answered
    simp only [onWallet, Action.update_bind, Action.read_bind] at rest
    obtain ⟨sameTip, sameHeight, sameTime⟩ := resyncFrom_tip _ rest
    exact ⟨sameTip, sameHeight, sameTime, settled⟩

end Session

/-! ## `build_fork` -/

def numbered : Int → List Block → List Mined
  | _, [] => []
  | height, block :: rest =>
      ⟨height + 1, block, block.header.time⟩ :: numbered (height + 1) rest

theorem buildForkFrom_follows {ω : Type} {lib : Btclib} {env : Environment ω}
    (laws : BlockLaws lib) {scriptPubKey : List Octet} (count : Nat) :
    ∀ {chain : ChainEnd} {world reached : ω} {blocks : List Block}, chain.Settled →
      buildForkFrom lib env scriptPubKey count chain.tip chain.height chain.last world =
        (.ok blocks, reached) →
      blocks.length = count ∧ chain.Follows lib scriptPubKey (numbered chain.height blocks) := by
  induction count with
  | zero =>
      intro chain world reached blocks _ run
      obtain ⟨rfl, -⟩ : [] = blocks ∧ world = reached := by simpa [buildForkFrom] using run
      exact ⟨rfl, trivial⟩
  | succ count ih =>
      intro chain world reached blocks settled run
      rw [buildForkFrom] at run
      obtain ⟨⟨block, time⟩, middle, mining, restRun⟩ := Action.bind_ok_iff.mp run
      obtain ⟨rest, final, laterRun, last⟩ := Action.bind_ok_iff.mp restRun
      obtain ⟨rfl, -⟩ : block :: rest = blocks ∧ final = reached := by simpa using last
      obtain ⟨later, solved, -⟩ := mineOne_ok mining
      have next := solved.next laws settled rfl later
      have sameTime : block.header.time = time := next.sameTime
      have settledNext := settled.extend lib next.later
      obtain ⟨size, follows⟩ := ih settledNext laterRun
      refine ⟨by rw [List.length_cons, size], ?_⟩
      rw [numbered, sameTime]
      exact ⟨⟨[], next⟩, follows⟩

/-- On a chain of any block times, whatever the clock reads and the node answers, each
block of each `generate` call extends the blocks recorded before it, at the next
height and later than the last time and than the median time past; where every call
returns the blocks are one sequence, as are those of a fork. -/
theorem blocks_exceed_median_time_past {ω : Type} {lib : Btclib} {env : Environment ω}
    (laws : BlockLaws lib) {tip : List Octet} {times : List Int} {median : Int}
    (isMedian : medianTimePast times = some median) :
    (∀ session : Session ω, session.StartedAt env tip (times.length - 1) median →
      ∀ calls : List (Int × List Tx),
        Session.CallsFollow lib env calls ⟨tip, times.length - 1, median, times⟩ session ∧
        ∀ hashes reached, Session.generateAll lib env calls session = (.ok hashes, reached) →
          ∃ mined, reached.mined = session.mined ++ mined ∧
            ChainEnd.Follows lib lib.anyoneCanSpend ⟨tip, times.length - 1, median, times⟩ mined) ∧
    ∀ (scriptPubKey : List Octet) (length : Int) (world reached : ω) (blocks : List Block),
      (readTip env world).1 = .ok (tip, times.length - 1, median) →
      buildFork lib env scriptPubKey length world = (.ok blocks, reached) →
      blocks.length = length.toNat ∧
        ChainEnd.Follows lib scriptPubKey ⟨tip, times.length - 1, median, times⟩
          (numbered (times.length - 1) blocks) := by
  have settled : ChainEnd.Settled ⟨tip, times.length - 1, median, times⟩ :=
    (median_le_iff isMedian median).mp le_rfl
  refine ⟨?_, ?_⟩
  · intro session started calls
    have stands := started.standsAt isMedian
    refine ⟨Session.callsFollow laws calls _ session stands, ?_⟩
    intro hashes reached run
    exact Session.generateAll_follows laws calls stands run
  · intro scriptPubKey length world reached blocks answered run
    obtain ⟨found, middle, readRun, forkRun⟩ := Action.bind_ok_iff.mp run
    rw [readRun] at answered
    cases answered
    exact buildForkFrom_follows laws length.toNat settled forkRun

namespace PlainLib

/-- A node of four blocks, the third of them ahead of the others, beside a clock that
goes back and forth. -/
def unsteady : Environment Nat where
  call method _ world :=
    (match method with
      | "getbestblockhash" => .ok (.str (hex [1]))
      | "getblockcount" => .ok (.int 3)
      | "getblockchaininfo" => .ok (.object [("mediantime", .int 110)])
      | _ => .ok .null, world)
  clock world := (if world % 2 = 0 then 2000 else 10, world + 1)

def unsteadyStart : Session Nat := ⟨⟨[], ∅, [1], 3, 110⟩, 0, [], []⟩

theorem unsteady_readTip (world : Nat) : readTip unsteady world = (.ok ([1], 3, 110), world) := by
  simp [readTip, rpcCall, unsteady, Action.bind_apply, orRaise, Json.asStr, Json.asInt, Json.get]

end PlainLib

theorem blocks_exceed_median_time_past_unsteady :
    Session.CallsFollow PlainLib.lib PlainLib.unsteady [(2, []), (1, [])]
        ⟨[1], 3, 110, [100, 105, 900, 110]⟩ PlainLib.unsteadyStart ∧
      ∀ blocks reached,
        buildFork PlainLib.lib PlainLib.unsteady [0x51] 3 0 = (.ok blocks, reached) →
        blocks.length = 3 ∧
          ChainEnd.Follows PlainLib.lib [0x51] ⟨[1], 3, 110, [100, 105, 900, 110]⟩
            (numbered 3 blocks) := by
  have started : PlainLib.unsteadyStart.StartedAt PlainLib.unsteady [1] 3 110 := by
    refine Or.inl ⟨0, ?_, ?_⟩
    · rw [PlainLib.unsteady_readTip]
    · rw [Session.construct, Action.bind_of_ok _ (PlainLib.unsteady_readTip 0)]
      rfl
  obtain ⟨runs, forks⟩ := @blocks_exceed_median_time_past Nat PlainLib.lib PlainLib.unsteady
    PlainLib.blockLaws [1] [100, 105, 900, 110] 110 (by decide)
  refine ⟨(runs PlainLib.unsteadyStart started [(2, []), (1, [])]).1, ?_⟩
  intro blocks reached run
  exact forks [0x51] 3 0 reached blocks (by rw [PlainLib.unsteady_readTip]; rfl) run

end BitcoinNodeTests
