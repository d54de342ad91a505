import BitcoinNodeTests.Foundation.Course
import BitcoinNodeTests.Foundation.Loop
import BitcoinNodeTests.Node.Waits

/-!
# Nodes that come to agree

Nodes that relay blocks and transactions to each other, each at a moment of its own.  A node
moves to a chain of more work alone, and what the chain confirms leaves its mempool.  Where one
node already has the best chain, `sync_all` returns with every node on it, and with one mempool.
-/

set_option autoImplicit false

namespace BitcoinNodeTests

open Foundation

structure RelayNode where
  tip : String
  pool : List String
  deriving DecidableEq, Repr

inductive RelayEvent where
  | connected (node : Nat) (hash : String)
  | relayed (node : Nat) (txid : String)
  deriving DecidableEq, Repr

/-- The chains by the hashes of their tips, the work in each and the transactions it confirms,
and what happens to the nodes. -/
structure Relay where
  work : String → Nat
  confirmed : String → List String
  during : Nat → List RelayEvent × Nat
  p2pAddress : Nat → String × Nat
  scaled : Int → Int
  describe : Nat → String
  repr : Json → String
  btcd : Nat → Bool

abbrev RelayWorld : Type := World (Nat → RelayNode)

def RelayNode.answer (method : String) (node : RelayNode) : Except RpcFailure Json :=
  match method with
  | "getbestblockhash" => .ok (.str node.tip)
  | "getrawmempool" => .ok (.array (node.pool.map Json.str))
  | _ => .error (.rpcError (-32601) "Method not found")

namespace Relay

variable (relay : Relay)

def apply (event : RelayEvent) (nodes : Nat → RelayNode) : Nat → RelayNode :=
  match event with
  | .connected node hash =>
      if relay.work (nodes node).tip < relay.work hash then
        Function.update nodes node
          ⟨hash, (nodes node).pool.filter fun txid => txid ∉ relay.confirmed hash⟩
      else nodes
  | .relayed node txid =>
      if txid ∈ relay.confirmed (nodes node).tip ∨ txid ∈ (nodes node).pool then nodes
      else Function.update nodes node ⟨(nodes node).tip, (nodes node).pool ++ [txid]⟩

def course : Course (Nat → RelayNode) RelayEvent where
  apply := relay.apply
  during := relay.during

def fleet : Fleet RelayWorld where
  call node method _ world :=
    let passed := relay.course.pass world
    ((passed.state node).answer method, passed)
  ticker := relay.course.ticker
  scaled := relay.scaled
  p2pAddress := relay.p2pAddress
  describe := relay.describe
  repr := relay.repr
  btcd := relay.btcd

end Relay

/-! ## Asking each node in turn -/

section Gather

variable {ω α : Type} {fleet : Fleet ω} {method : String} {read : Json → Except WaitFailed α}
  {relation : ω → ω → Prop} [IsPreorder ω relation]

theorem gather_moves (moves : ∀ node, Action.Moves relation (fleet.rpc node method []))
    (nodes : List Nat) : Action.Moves relation (fleet.gather method read nodes) := by
  induction nodes with
  | nil => exact Action.Moves.unchanged fun _ => rfl
  | cons first rest ih =>
      apply Action.Moves.bind (moves first)
      intro answer
      have reads : Action.Moves relation (outcome (read answer) : WaitAction ω α) :=
        Action.Moves.unchanged fun _ => rfl
      apply Action.Moves.bind reads
      intro value
      exact Action.Moves.bind ih fun _ => Action.Moves.unchanged fun _ => rfl

theorem gather_ok (moves : ∀ node, Action.Moves relation (fleet.rpc node method []))
    {nodes : List Nat} {world final : ω} {values : List α}
    (run : fleet.gather method read nodes world = (.ok values, final)) :
    relation world final ∧ ∀ node ∈ nodes, ∃ before after answer value,
      relation world before ∧ fleet.rpc node method [] before = (.ok answer, after) ∧
        relation after final ∧ read answer = .ok value ∧ value ∈ values := by
  induction nodes generalizing world values with
  | nil =>
      cases run
      exact ⟨Std.Refl.refl _, fun node member => absurd member List.not_mem_nil⟩
  | cons first rest ih =>
      obtain ⟨answer, asked, asks, run⟩ := Action.bind_ok_iff.mp run
      obtain ⟨value, _, reads, run⟩ := Action.bind_ok_iff.mp run
      obtain ⟨accepted, rfl⟩ := Prod.mk.inj reads
      obtain ⟨others, _, later, returns⟩ := Action.bind_ok_iff.mp run
      cases returns
      obtain ⟨moved, each⟩ := ih later
      have started := (moves first).of_run asks
      refine ⟨IsTrans.trans _ _ _ started moved, ?_⟩
      intro node member
      rcases List.mem_cons.mp member with rfl | among
      · exact ⟨world, asked, answer, value, Std.Refl.refl world, asks, moved, accepted,
          List.mem_cons_self⟩
      · obtain ⟨before, after, answer', value', since, asks', moved', accepted', among'⟩ :=
          each node among
        exact ⟨before, after, answer', value', IsTrans.trans _ _ _ started since, asks', moved',
          accepted', List.mem_cons_of_mem value among'⟩

omit [IsPreorder ω relation] in
theorem oneAmong_same {same : α → α → Bool} {equal : α → α → Prop} [IsEquiv α equal]
    (means : ∀ {value other}, same value other = true → equal value other) {values : List α}
    (one : oneAmong same values = true) {value other : α} (member : value ∈ values)
    (member' : other ∈ values) : equal value other := by
  cases values with
  | nil => cases member
  | cons first rest =>
      rw [oneAmong, List.all_eq_true] at one
      have toFirst : ∀ third ∈ first :: rest, equal first third := by
        intro third among
        rcases List.mem_cons.mp among with rfl | later
        · exact refl_of equal third
        · exact means (one third later)
      exact trans_of equal (symm_of equal (toFirst value member)) (toFirst other member')

end Gather

def SameMembers (first second : List Hashed) : Prop := ∀ value, value ∈ first ↔ value ∈ second

instance : IsEquiv (List Hashed) SameMembers where
  refl _ _ := Iff.rfl
  symm _ _ same value := (same value).symm
  trans _ _ _ one other value := (one value).trans (other value)

theorem sameSet_iff {first second : List Hashed} :
    sameSet first second = true ↔ SameMembers first second := by
  rw [sameSet, Bool.and_eq_true, List.all_eq_true, List.all_eq_true]
  simp only [decide_eq_true_iff]
  exact ⟨fun both value => ⟨both.1 value, both.2 value⟩,
    fun same => ⟨fun value => (same value).mp, fun value => (same value).mpr⟩⟩

theorem frozenset_strs (texts : List String) :
    frozenset (.array (texts.map Json.str)) = .ok (texts.map Hashed.str) := by
  show (texts.map Json.str).mapM asMember = _
  induction texts with
  | nil => rfl
  | cons text rest ih =>
      rw [List.map_cons, List.mapM_cons, ih]
      rfl

/-! ## One node at the best tip -/

/-- A leader at the best tip with the transactions `pool`: the others have no more than these and
what the best chain confirms. -/
structure Relay.Led (relay : Relay) (nodes : List Nat) (leader : Nat) (best : String)
    (pool : List String) (state : Nat → RelayNode) : Prop where
  tip : (state leader).tip = best
  pooled : ∀ txid ∈ pool, txid ∈ (state leader).pool
  pools : ∀ node ∈ nodes, ∀ txid ∈ (state node).pool,
    txid ∈ pool ∨ (state node).tip ≠ best ∧ txid ∈ relay.confirmed best

/-- Nobody mines past the best tip or brings in another transaction. -/
structure Relay.Calm (relay : Relay) (nodes : List Nat) (best : String) (pool : List String)
    (first : Nat) : Prop where
  heaviest : ∀ turn, first ≤ turn → ∀ node hash, .connected node hash ∈ (relay.during turn).1 →
    relay.work hash ≤ relay.work best
  known : ∀ turn, first ≤ turn → ∀ node txid, .relayed node txid ∈ (relay.during turn).1 →
    node ∈ nodes → txid ∈ pool ∨ txid ∈ relay.confirmed best

/-- What is led stays so, and a node at the best tip keeps it and what its mempool has. -/
structure Relay.Spreads (relay : Relay) (nodes : List Nat) (leader : Nat) (best : String)
    (pool : List String) (before after : Nat → RelayNode) : Prop where
  led : relay.Led nodes leader best pool before → relay.Led nodes leader best pool after
  keeps : ∀ node, (before node).tip = best → (after node).tip = best ∧
    ∀ txid ∈ (before node).pool, txid ∈ (after node).pool

section Spreads

variable {relay : Relay} {nodes : List Nat} {leader : Nat} {best : String} {pool : List String}

instance : IsPreorder (Nat → RelayNode) (relay.Spreads nodes leader best pool) where
  refl _ := ⟨id, fun _ tip => ⟨tip, fun _ member => member⟩⟩
  trans _ _ _ one other := by
    refine ⟨other.led ∘ one.led, fun node tip => ?_⟩
    obtain ⟨tip', kept⟩ := one.keeps node tip
    obtain ⟨tip'', kept'⟩ := other.keeps node tip'
    exact ⟨tip'', fun txid member => kept' txid (kept txid member)⟩

theorem Relay.connected_spreads {node : Nat} {hash : String}
    (bounded : relay.work hash ≤ relay.work best) (state : Nat → RelayNode) :
    relay.Spreads nodes leader best pool state (relay.apply (.connected node hash) state) := by
  rw [apply]
  by_cases more : relay.work (state node).tip < relay.work hash
  · rw [if_pos more]
    have behind : (state node).tip ≠ best := by
      intro same
      rw [same] at more
      omega
    constructor
    · intro led
      have other : leader ≠ node := fun same => behind (same ▸ led.tip)
      refine ⟨?_, ?_, ?_⟩
      · rw [Function.update_of_ne other]
        exact led.tip
      · rw [Function.update_of_ne other]
        exact led.pooled
      · intro place among txid held
        by_cases here : place = node
        · rw [here, Function.update_self] at held ⊢
          obtain ⟨held, unconfirmed⟩ := List.mem_filter.mp held
          rcases led.pools node (here ▸ among) txid held with known | ⟨-, confirmed⟩
          · exact .inl known
          · refine .inr ⟨fun same => ?_, confirmed⟩
            have same : hash = best := same
            rw [same, decide_eq_true_iff] at unconfirmed
            exact unconfirmed confirmed
        · rw [Function.update_of_ne here] at held ⊢
          exact led.pools place among txid held
    · intro place tip
      have other : place ≠ node := fun same => behind (same ▸ tip)
      rw [Function.update_of_ne other]
      exact ⟨tip, fun _ held => held⟩
  · rw [if_neg more]
    exact Std.Refl.refl state

theorem Relay.relayed_spreads {node : Nat} {txid : String}
    (known : node ∈ nodes → txid ∈ pool ∨ txid ∈ relay.confirmed best)
    (state : Nat → RelayNode) :
    relay.Spreads nodes leader best pool state (relay.apply (.relayed node txid) state) := by
  rw [apply]
  by_cases refused : txid ∈ relay.confirmed (state node).tip ∨ txid ∈ (state node).pool
  · rw [if_pos refused]
    exact Std.Refl.refl state
  · rw [if_neg refused]
    have tips : ∀ place, (Function.update state node
        ⟨(state node).tip, (state node).pool ++ [txid]⟩ place).tip = (state place).tip := by
      intro place
      by_cases here : place = node
      · rw [here, Function.update_self]
      · rw [Function.update_of_ne here]
    have grows : ∀ place, ∀ other ∈ (state place).pool, other ∈ (Function.update state node
        ⟨(state node).tip, (state node).pool ++ [txid]⟩ place).pool := by
      intro place other held
      by_cases here : place = node
      · rw [here] at held
        rw [here, Function.update_self]
        exact List.mem_append_left _ held
      · rw [Function.update_of_ne here]
        exact held
    constructor
    · intro led
      refine ⟨(tips leader).trans led.tip, fun other member => grows leader other
        (led.pooled other member), ?_⟩
      intro place among other held
      rw [tips]
      by_cases here : place = node
      · rw [here, Function.update_self] at held
        rw [here] at among ⊢
        rcases List.mem_append.mp held with before | new
        · exact led.pools node among other before
        · rw [List.mem_singleton] at new
          subst new
          rcases known among with pooled | confirmed
          · exact .inl pooled
          · refine .inr ⟨fun same => refused (.inl ?_), confirmed⟩
            rw [same]
            exact confirmed
      · rw [Function.update_of_ne here] at held
        exact led.pools place among other held
    · intro place tip
      exact ⟨(tips place).trans tip, grows place⟩

variable {first : Nat} (calm : relay.Calm nodes best pool first)
include calm

theorem Relay.event_spreads (turn : Nat) (late : first ≤ turn) (event : RelayEvent)
    (happens : event ∈ (relay.course.during turn).1) (state : Nat → RelayNode) :
    relay.Spreads nodes leader best pool state (relay.course.apply event state) := by
  cases event with
  | connected node hash =>
      exact connected_spreads (calm.heaviest turn late node hash happens) state
  | relayed node txid =>
      exact relayed_spreads (calm.known turn late node txid happens) state

theorem Relay.rpc_spreads (method : String) (node : Nat) :
    Action.Moves (Course.Since first (relay.Spreads nodes leader best pool))
      (relay.fleet.rpc node method []) := by
  intro world
  have moved := @Course.pass_since _ _ relay.course _ _ first
    (@event_spreads relay nodes leader best pool first calm) world
  rw [Fleet.rpc]
  rcases called : relay.fleet.call node method [] world with ⟨failure | answer, reached⟩
  · have same : relay.course.pass world = reached := congrArg Prod.snd called
    exact same ▸ moved
  · have same : relay.course.pass world = reached := congrArg Prod.snd called
    exact same ▸ moved

variable (leader) in
/-- A wait for the nodes to agree ends with a round in which they all gave one answer. -/
theorem Relay.waitUntilAgree_found {α : Type} {method : String}
    {read : Json → Except WaitFailed α} {same : α → α → Bool} {what : String} {timeout : Int}
    {world final : RelayWorld}
    (run : relay.fleet.waitUntilAgree method read same what nodes timeout world =
      (.ok (), final)) :
    ∃ reached values, Course.Since first (relay.Spreads nodes leader best pool) world reached ∧
      relay.fleet.gather method read nodes reached = (.ok values, final) ∧
      oneAmong same values = true := by
  obtain ⟨now, timed, times, polls⟩ := Action.bind_ok_iff.mp run
  have ticked := (Prod.mk.inj times).2
  subst ticked
  have each := @event_spreads relay nodes leader best pool first calm
  have moves : Action.Moves (Course.Since first (relay.Spreads nodes leader best pool))
      (relay.fleet.agreeRound method read same nodes) := by
    apply Action.Moves.bind
    · exact gather_moves (rpc_spreads calm method) nodes
    · exact fun _ => Action.Moves.unchanged fun _ => rfl
  obtain ⟨reached, moved, found⟩ := Ticker.pollBefore_found Course.ticker_laws
    (fun state => (moves state).now) (Course.pass_since each)
    (Course.sleep_since each 100) moves polls
  obtain ⟨values, asked, gathered, returns⟩ := Action.bind_ok_iff.mp found
  have answer := Except.ok.inj (Prod.mk.inj returns).1
  have ended := (Prod.mk.inj returns).2
  subst ended
  refine ⟨reached, values, IsTrans.trans _ _ _ (Course.pass_since each world) moved, gathered, ?_⟩
  by_contra differ
  rw [if_neg differ] at answer
  cases answer

/-! ## Where the waits return -/

omit calm in
theorem Relay.rpc_answers {node : Nat} {method : String} {before after : RelayWorld} {answer : Json}
    (asks : relay.fleet.rpc node method [] before = (.ok answer, after)) :
    (after.state node).answer method = .ok answer := by
  rw [Fleet.rpc] at asks
  rcases called : relay.fleet.call node method [] before with ⟨failure | given, reached⟩
  · rw [called] at asks
    cases asks
  · rw [called] at asks
    cases asks
    have same : relay.course.pass before = after := congrArg Prod.snd called
    subst same
    exact congrArg Prod.fst called

theorem Relay.tips_agree {timeout : Int} {world final : RelayWorld} (member : leader ∈ nodes)
    (started : first ≤ world.turn) (led : relay.Led nodes leader best pool world.state)
    (run : relay.fleet.waitUntilTipsAgree nodes timeout world = (.ok (), final)) :
    Course.Since first (relay.Spreads nodes leader best pool) world final ∧
      ∀ node ∈ nodes, (final.state node).tip = best := by
  obtain ⟨reached, values, moved, gathered, one⟩ := waitUntilAgree_found leader calm run
  obtain ⟨asked, each⟩ := gather_ok (rpc_spreads calm "getbestblockhash") gathered
  have answered : ∀ node ∈ nodes, ∃ after : RelayWorld,
      Course.Since first (relay.Spreads nodes leader best pool) world after ∧
      Course.Since first (relay.Spreads nodes leader best pool) after final ∧
      Hashed.str (after.state node).tip ∈ values := by
    intro node among
    obtain ⟨before, after, answer, value, since, asks, later, reads, given⟩ := each node among
    have told := rpc_answers asks
    cases told
    cases reads
    exact ⟨after, IsTrans.trans _ _ _ moved (IsTrans.trans _ _ _ since
      ((rpc_spreads calm "getbestblockhash" node).of_run asks)), later, given⟩
  refine ⟨IsTrans.trans _ _ _ moved asked, fun node among => ?_⟩
  obtain ⟨heard, soFar, -, ofLeader⟩ := answered leader member
  obtain ⟨after, since, later, ofNode⟩ := answered node among
  have tips : Hashed.str (heard.state leader).tip = .str (after.state node).tip :=
    oneAmong_same (fun same => of_decide_eq_true same) one ofLeader ofNode
  have best' := ((soFar.moved started).led led).tip
  have atBest : (after.state node).tip = best := by
    rw [← best']
    exact (Hashed.str.inj tips).symm
  exact ((later.moved (Nat.le_trans started since.turn)).keeps node atBest).1

theorem Relay.mempools_agree {timeout : Int} {world final : RelayWorld} (member : leader ∈ nodes)
    (started : first ≤ world.turn) (led : relay.Led nodes leader best pool world.state)
    (tips : ∀ node ∈ nodes, (world.state node).tip = best)
    (run : relay.fleet.waitUntilMempoolsAgree nodes timeout world = (.ok (), final)) :
    ∀ node ∈ nodes, (final.state node).tip = best ∧
      ∀ txid, txid ∈ (final.state node).pool ↔ txid ∈ pool := by
  obtain ⟨reached, values, moved, gathered, one⟩ := waitUntilAgree_found leader calm run
  obtain ⟨asked, each⟩ := gather_ok (rpc_spreads calm "getrawmempool") gathered
  have whole := IsTrans.trans _ _ _ moved asked
  have answered : ∀ node ∈ nodes, ∃ (after : RelayWorld) (value : List Hashed),
      Course.Since first (relay.Spreads nodes leader best pool) world after ∧
      Course.Since first (relay.Spreads nodes leader best pool) after final ∧ value ∈ values ∧
      ∀ txid, .str txid ∈ value ↔ txid ∈ (after.state node).pool := by
    intro node among
    obtain ⟨before, after, answer, value, since, asks, later, reads, given⟩ := each node among
    have told := rpc_answers asks
    cases told
    refine ⟨after, value, IsTrans.trans _ _ _ moved (IsTrans.trans _ _ _ since
      ((rpc_spreads calm "getrawmempool" node).of_run asks)), later, given, ?_⟩
    rw [frozenset_strs] at reads
    cases reads
    simp
  intro node among
  obtain ⟨tip, -⟩ := (whole.moved started).keeps node (tips node among)
  refine ⟨tip, fun txid => ⟨fun held => ?_, fun pooled => ?_⟩⟩
  · rcases ((whole.moved started).led led).pools node among txid held with known | ⟨behind, -⟩
    · exact known
    · exact absurd tip behind
  · obtain ⟨heard, value, soFar, -, ofLeader, reading⟩ := answered leader member
    obtain ⟨after, value', since, later, ofNode, reading'⟩ := answered node among
    have there := (reading txid).mpr (((soFar.moved started).led led).pooled txid pooled)
    have here := (oneAmong_same sameSet_iff.mp one ofLeader ofNode (.str txid)).mp there
    have tip' := ((since.moved started).keeps node (tips node among)).1
    exact ((later.moved (Nat.le_trans started since.turn)).keeps node tip').2 txid
      ((reading' txid).mp here)

end Spreads

/-- `sync_all` returns with every node at the tip of the node that was ahead, and with the same
transactions in every mempool. -/
theorem Relay.syncAll_agrees {relay : Relay} {nodes : List Nat} {leader : Nat} {best : String}
    {pool : List String} {timeout : Int} {world final : RelayWorld} (member : leader ∈ nodes)
    (calm : relay.Calm nodes best pool world.turn)
    (led : relay.Led nodes leader best pool world.state)
    (run : relay.fleet.syncAll nodes timeout world = (.ok (), final)) :
    ∀ node ∈ nodes, (final.state node).tip = best ∧
      ∀ txid, txid ∈ (final.state node).pool ↔ txid ∈ pool := by
  obtain ⟨⟨⟩, middle, tipsWait, poolsWait⟩ := Action.bind_ok_iff.mp run
  obtain ⟨moved, tips⟩ := tips_agree calm member (Nat.le_refl _) led tipsWait
  exact mempools_agree calm member moved.turn ((moved.moved (Nat.le_refl _)).led led) tips poolsWait

/-! ## The waits return -/

section Returns

variable {relay : Relay} {nodes : List Nat} {α : Type} {method : String}
  {read : Json → Except WaitFailed α} {same : α → α → Bool} {delay : Nat} {start : RelayWorld}

theorem Relay.gather_answers (value : RelayNode → α)
    (reads : ∀ node : RelayNode, ∃ answer, node.answer method = .ok answer ∧
      read answer = .ok (value node)) (nodes : List Nat) :
    ∀ world, ∃ values, relay.fleet.gather method read nodes world =
        (.ok values, relay.course.pass^[nodes.length] world) ∧ values.length = nodes.length ∧
      ∀ given ∈ values, ∃ node ∈ nodes, ∃ asked < nodes.length,
        given = value ((relay.course.pass^[asked + 1] world).state node) := by
  induction nodes with
  | nil => exact fun world => ⟨[], rfl, rfl, fun _ member => absurd member List.not_mem_nil⟩
  | cons first rest ih =>
      intro world
      obtain ⟨answer, answers, accepted⟩ := reads ((relay.course.pass world).state first)
      obtain ⟨values, run, long, each⟩ := ih (relay.course.pass world)
      have asks : relay.fleet.rpc first method [] world = (.ok answer, relay.course.pass world) :=
        Fleet.rpc_of_ok _ (Prod.ext answers rfl)
      have given : (outcome (read answer) : WaitAction RelayWorld α) (relay.course.pass world) =
          (.ok (value ((relay.course.pass world).state first)), relay.course.pass world) := by
        rw [outcome, accepted]
      refine ⟨value ((relay.course.pass world).state first) :: values, ?_, congrArg (· + 1) long, ?_⟩
      · rw [Fleet.gather, Action.bind_of_ok _ asks, Action.bind_of_ok _ given,
          Action.bind_of_ok _ run]
        rfl
      · intro other member
        rcases List.mem_cons.mp member with rfl | later
        · exact ⟨first, List.mem_cons_self, 0, Nat.succ_pos _, rfl⟩
        · obtain ⟨node, among, asked, bound, rfl⟩ := each other later
          exact ⟨node, List.mem_cons_of_mem first among, asked + 1, Nat.succ_lt_succ bound, rfl⟩

/-- Every node is at the tip, with the same transactions. -/
def Relay.Synced (nodes : List Nat) (best : String) (pool : List String)
    (state : Nat → RelayNode) : Prop :=
  ∀ node ∈ nodes, (state node).tip = best ∧ ∀ txid, txid ∈ (state node).pool ↔ txid ∈ pool

theorem oneAmong_of_same {values : List α} (nonempty : values.length ≠ 0)
    (alike : ∀ value ∈ values, ∀ other ∈ values, same value other = true) :
    oneAmong same values = true := by
  cases values with
  | nil => exact absurd rfl nonempty
  | cons first rest =>
      rw [oneAmong, List.all_eq_true]
      exact fun other member =>
        alike first List.mem_cons_self other (List.mem_cons_of_mem first member)

theorem Relay.waitUntilAgree_returns {best : String} {pool : List String} {upAt count : Nat}
    {later : RelayWorld} {what : String} {timeout : Int} (value : RelayNode → α)
    (reads : ∀ node : RelayNode, ∃ answer, node.answer method = .ok answer ∧
      read answer = .ok (value node)) (nonempty : nodes ≠ [])
    (alike : ∀ {one other : RelayNode}, one.tip = best → other.tip = best →
      (∀ txid, txid ∈ one.pool ↔ txid ∈ pool) → (∀ txid, txid ∈ other.pool ↔ txid ∈ pool) →
      same (value one) (value other) = true)
    (quick : relay.course.Quick delay)
    (synced : ∀ count, upAt ≤ count →
      Synced nodes best pool (relay.course.pass^[count] start).state)
    (after : relay.course.After delay start count later)
    (inTime : (nodes.length + 3) * (100 + delay) < relay.scaled timeout)
    (roomy : start.now + upAt * (100 + delay) + 2 * ((nodes.length + 2) * (100 + delay)) <
      later.now + relay.scaled timeout) :
    ∃ final, relay.fleet.waitUntilAgree method read same what nodes timeout later =
        (.ok (), final) ∧ (∃ reached, relay.course.After delay start reached final) ∧
      later.now ≤ final.now ∧ final.now ≤ max (later.now + (100 + delay))
        (start.now + upAt * (100 + delay) + (nodes.length + 2) * (100 + delay)) +
          (nodes.length + 2) * (100 + delay) := by
  have rounds : ∀ world, ∃ found, relay.fleet.agreeRound method read same nodes world =
      (.ok found, relay.course.pass^[nodes.length] world) := by
    intro world
    obtain ⟨values, run, -⟩ := gather_answers value reads nodes world
    exact ⟨_, Action.bind_of_ok _ run⟩
  have settles : Settles relay.course.ticker (relay.fleet.agreeRound method read same nodes)
      (fun world => ∃ count, relay.course.After delay start count world)
      (start.now + upAt * (100 + delay)) ((nodes.length + 2) * (100 + delay)) := by
    apply Course.settles_of_answer quick
    intro count world after
    obtain ⟨values, run, long, each⟩ := gather_answers value reads nodes world
    refine ⟨if oneAmong same values then some () else none, ?_, fun settled => ?_⟩
    · rw [Fleet.agreeRound, Action.bind_of_ok _ run]
      rfl
    · rw [if_pos]
      · rfl
      · apply oneAmong_of_same
        · rw [long]
          exact fun empty => nonempty (List.length_eq_zero_iff.mp empty)
        · intro one member other member'
          obtain ⟨node, among, asked, -, rfl⟩ := each one member
          obtain ⟨node', among', asked', -, rfl⟩ := each other member'
          have state := (after.iterate quick (asked + 1)).state
          have state' := (after.iterate quick (asked' + 1)).state
          rw [state, state']
          obtain ⟨tip, holds⟩ := synced (count + (asked + 1)) (by omega) node among
          obtain ⟨tip', holds'⟩ := synced (count + (asked' + 1)) (by omega) node' among'
          exact alike tip tip' holds holds'
  have timed := after.pass quick
  have timely := Course.pass_now quick later
  have ticked : later.now ≤ (relay.course.pass later).now := Course.ticker_laws.tick later
  rw [Int.add_mul] at inTime
  obtain ⟨⟨⟩, final, run, kept, goesOn, bound⟩ := settles.returns Course.ticker_laws
    (fun world => by
      obtain ⟨found, run⟩ := rounds world
      rw [run]
      exact Course.iterate_goesOn nodes.length world)
    (.timeoutError s!"nodes did not converge on one {what} within {seconds (relay.scaled timeout)} s")
    ((relay.course.pass later).now + relay.scaled timeout) ⟨_, timed⟩
    (by
      show (relay.course.pass later).now + _ < _
      rw [Int.add_mul]
      omega) (by omega)
  refine ⟨final, run, kept, Int.le_trans ticked goesOn, ?_⟩
  have late : final.now ≤ max (relay.course.pass later).now
    (start.now + upAt * (100 + delay) + (nodes.length + 2) * (100 + delay)) +
      (nodes.length + 2) * (100 + delay) := bound
  omega

/-- `sync_all` returns where the nodes are all alike from some operation on and each of its two
timeouts has room for two rounds more. -/
theorem Relay.syncAll_returns {best : String} {pool : List String} {upAt : Nat} {timeout : Int}
    (nonempty : nodes ≠ []) (quick : relay.course.Quick delay)
    (synced : ∀ count, upAt ≤ count →
      Synced nodes best pool (relay.course.pass^[count] start).state)
    (room : upAt * (100 + delay) + 2 * ((nodes.length + 2) * (100 + delay)) <
      relay.scaled timeout) :
    ∃ final, relay.fleet.syncAll nodes timeout start = (.ok (), final) ∧
      final.now ≤ start.now + upAt * (100 + delay) + 4 * ((nodes.length + 2) * (100 + delay)) := by
  have settling : 0 ≤ (upAt : Int) * (100 + delay) := Int.mul_nonneg (by omega) (by omega)
  have asking : 0 ≤ (nodes.length : Int) * (100 + delay) := Int.mul_nonneg (by omega) (by omega)
  rw [Int.add_mul] at room ⊢
  obtain ⟨middle, tips, ⟨_, after⟩, started, by'⟩ : ∃ final,
      relay.fleet.waitUntilTipsAgree nodes timeout start = (.ok (), final) ∧
        (∃ reached, relay.course.After delay start reached final) ∧ _ ∧ _ :=
    waitUntilAgree_returns (fun node => Hashed.str node.tip)
      (fun node => ⟨.str node.tip, rfl, rfl⟩) nonempty
      (fun tip tip' _ _ => decide_eq_true (congrArg Hashed.str (tip.trans tip'.symm))) quick synced
      (Course.After.none delay start)
      (by rw [Int.add_mul]; omega) (by rw [Int.add_mul]; omega)
  rw [Int.add_mul] at by'
  obtain ⟨final, pools, -, -, by''⟩ : ∃ final,
      relay.fleet.waitUntilMempoolsAgree nodes timeout middle = (.ok (), final) ∧
        (∃ reached, relay.course.After delay start reached final) ∧ _ ∧ _ :=
    waitUntilAgree_returns (fun node => node.pool.map Hashed.str)
      (fun node => ⟨_, rfl, frozenset_strs node.pool⟩) nonempty
      (fun _ _ holds holds' => sameSet_iff.mpr fun value => by
        simp only [List.mem_map, holds, holds']) quick synced after
      (by rw [Int.add_mul]; omega) (by rw [Int.add_mul]; omega)
  rw [Int.add_mul] at by''
  exact ⟨final, (Action.bind_of_ok _ tips).trans pools, by omega⟩

end Returns

/-! ## Two nodes, one a block behind -/

def twoRelays : Relay where
  work hash := if hash = "b" then 2 else 1
  confirmed hash := if hash = "b" then ["s"] else []
  during turn :=
    if turn = 3 then ([.connected 1 "b"], 5)
    else if turn = 9 then ([.relayed 1 "t"], 5)
    else ([], 1)
  p2pAddress _ := ("a", 1)
  scaled := id
  describe _ := ""
  repr _ := ""
  btcd _ := false

def oneBehind : RelayWorld :=
  ⟨fun node => if node = 0 then ⟨"b", ["t"]⟩ else ⟨"a", ["s"]⟩, 0, 0⟩

theorem twoRelays_calm : twoRelays.Calm [0, 1] "b" ["t"] 0 := by
  constructor
  · intro turn _ node hash happens
    simp only [twoRelays] at happens ⊢
    split at happens
    · simp only [List.mem_singleton, RelayEvent.connected.injEq] at happens
      rw [happens.2]
      decide
    · split at happens <;> simp at happens
  · intro turn _ node txid happens _
    simp only [twoRelays] at happens ⊢
    split at happens
    · simp at happens
    · split at happens
      · simp at happens
        exact .inl (by simp [happens.2])
      · simp at happens

theorem oneBehind_led : twoRelays.Led [0, 1] 0 "b" ["t"] oneBehind.state := by
  refine ⟨rfl, fun txid member => member, ?_⟩
  intro node among txid held
  simp only [List.mem_cons, List.not_mem_nil, or_false] at among
  rcases among with rfl | rfl
  · exact .inl held
  · exact .inr ⟨by decide, held⟩

theorem twoRelays_agree :
    ((twoRelays.fleet.syncAll [0, 1] 30000 oneBehind).2.state 1).tip = "b" ∧
      "t" ∈ ((twoRelays.fleet.syncAll [0, 1] 30000 oneBehind).2.state 1).pool := by
  have returns : (twoRelays.fleet.syncAll [0, 1] 30000 oneBehind).1 = .ok () := rfl
  obtain ⟨tip, pool⟩ := Relay.syncAll_agrees (by decide) twoRelays_calm oneBehind_led
    (Prod.ext returns rfl) 1 (by decide)
  exact ⟨tip, (pool "t").mpr List.mem_cons_self⟩

theorem twoRelays_still (count : Nat) (world : RelayWorld) (late : 10 ≤ world.turn) :
    (twoRelays.course.pass^[count] world).state = world.state := by
  induction count generalizing world with
  | zero => rfl
  | succ count ih =>
      have nothing : (twoRelays.course.during world.turn).1 = [] := by
        simp only [Relay.course, twoRelays]
        rw [if_neg (by omega), if_neg (by omega)]
      have same : (twoRelays.course.pass world).state = world.state := by
        show twoRelays.course.applyAll (twoRelays.course.during world.turn).1 world.state = _
        rw [nothing]
        rfl
      rw [Function.iterate_succ_apply, ih _ (Nat.le_succ_of_le late), same]

theorem twoRelays_synced (count : Nat) (late : 10 ≤ count) :
    Relay.Synced [0, 1] "b" ["t"] (twoRelays.course.pass^[count] oneBehind).state := by
  obtain ⟨more, rfl⟩ := Nat.exists_eq_add_of_le late
  rw [Nat.add_comm, Function.iterate_add_apply,
    twoRelays_still more (twoRelays.course.pass^[10] oneBehind) (by decide)]
  intro node among
  simp only [List.mem_cons, List.not_mem_nil, or_false] at among
  rcases among with rfl | rfl
  · exact ⟨rfl, fun _ => Iff.rfl⟩
  · exact ⟨rfl, fun _ => Iff.rfl⟩

theorem twoRelays_return : ∃ final,
    twoRelays.fleet.syncAll [0, 1] 30000 oneBehind = (.ok (), final) ∧
      final.now ≤ oneBehind.now + ((10 : Nat) : Int) * (100 + (5 : Nat)) +
        4 * ((([0, 1] : List Nat).length + 2) * (100 + (5 : Nat))) := by
  have quick : twoRelays.course.Quick 5 := by
    intro turn
    simp only [Relay.course, twoRelays]
    split
    · exact Nat.le_refl 5
    · split <;> decide
  exact Relay.syncAll_returns (by decide) quick twoRelays_synced (by decide)

end BitcoinNodeTests
