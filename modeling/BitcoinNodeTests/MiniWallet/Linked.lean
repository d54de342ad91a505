import BitcoinNodeTests.MiniWallet.Distinct
import BitcoinNodeTests.MiniWallet.Refused

/-!
# A chain broadcast link by link

`send_self_transfer_chain` builds the chain whole and then sends each link, caching what it
pays and dropping what it spends.  A prefix of the chain accepted leaves the output of its
last link alone in the place of the coin, whichever link the node refuses then.
-/

set_option autoImplicit false

namespace BitcoinNodeTests

open Foundation

/-- Each link spends the single wallet output of the one before it, and the first `coin`. -/
def Links (lib : Btclib) : Utxo → List Tx → Prop
  | _, [] => True
  | coin, tx :: rest => tx.spends = [coin.outpoint] ∧
      ∃ next, Wallet.newUtxos lib tx = [next] ∧ Links lib next rest

/-- btclib takes and serializes every link of a chain from `coin`. -/
def ChainTaken (lib : Btclib) : Nat → Utxo → Prop
  | 0, _ => True
  | count + 1, coin => lib.Takes (SelfTransfer.default.priced lib coin) ∧
      lib.validTxOut (SelfTransfer.default.paid lib coin) ∧
      (lib.serialize (SelfTransfer.default.unpadded lib coin)).isSome ∧
      ChainTaken lib count (linked lib coin)

def defaultFee (lib : Btclib) (coin : Utxo) : Int :=
  SelfTransfer.default.feeOf (SelfTransfer.default.priced lib coin)

def Wallet.scanAll (lib : Btclib) (txs : List Tx) (wallet : Wallet) : Wallet :=
  txs.foldl (fun scanned tx => scanned.scanTx lib tx) wallet

/-- The cache without the coin and without what the transactions spend, and the coins that the
last of them pays. -/
def Wallet.cacheAfter (lib : Btclib) (coin : Utxo) (accepted : List Tx) (wallet : Wallet) :
    List Utxo :=
  ((wallet.utxos.erase coin).filter fun utxo => utxo.outpoint ∉ accepted.flatMap Tx.spends) ++
    accepted.getLast?.toList.flatMap (Wallet.newUtxos lib)

section Chain

variable {lib : Btclib}

theorem newUtxos_unpadded (coin : Utxo) :
    Wallet.newUtxos lib (SelfTransfer.default.unpadded lib coin) = [linked lib coin] := by
  have pays : (SelfTransfer.default.unpadded lib coin).vout =
      [⟨(SelfTransfer.default.paid lib coin).value, lib.anyoneCanSpend⟩] := rfl
  rw [Wallet.newUtxos, pays, List.zipIdx_singleton, List.filterMap_cons]
  dsimp only
  rw [if_pos rfl]
  rfl

theorem defaultFee_nonneg (coin : Utxo) : 0 ≤ defaultFee lib coin := by
  have fee : defaultFee lib coin = -Int.fdiv (-300000 * (SelfTransfer.default.priced lib coin).vsize)
      1000 := rfl
  rw [fee, Int.fdiv_eq_ediv_of_nonneg _ (by omega)]
  omega

theorem chainFits_of_large (count : Nat) : ∀ {coin : Utxo}, ChainTaken lib count coin →
    count * defaultFee lib coin < coin.value → ChainFits lib count coin := by
  induction count with
  | zero => exact fun _ _ => trivial
  | succ count ih =>
      intro coin taken large
      obtain ⟨takes, output, -, later⟩ := taken
      have sameFee : defaultFee lib (linked lib coin) = defaultFee lib coin := rfl
      have value : (linked lib coin).value = coin.value - defaultFee lib coin := rfl
      have nonneg := @defaultFee_nonneg lib coin
      have others : 0 ≤ (count : Int) * defaultFee lib coin := by positivity
      rw [Nat.cast_succ, Int.add_mul, Int.one_mul] at large
      refine ⟨⟨rfl, takes, ?_, output, fun sized => absurd rfl sized⟩, ih later ?_⟩
      · show defaultFee lib coin < coin.value
        omega
      · rw [sameFee, value]
        omega

theorem chainOf_links (count : Nat) : ∀ {coin : Utxo} {chain : List Tx}, ChainTaken lib count coin →
    chainOf lib count coin = .ok chain →
    chain.length = count ∧ Links lib coin chain ∧ ∀ tx ∈ chain, (lib.serialize tx).isSome := by
  induction count with
  | zero =>
      intro coin chain _ made
      cases made
      exact ⟨rfl, trivial, nofun⟩
  | succ count ih =>
      intro coin chain taken made
      unfold chainOf at made
      obtain ⟨tx, link, rest⟩ := Action.result_bind_ok made
      obtain rfl : tx = SelfTransfer.default.unpadded lib coin := selfTransferOf_returns link
      rw [selfTransferOf_default link] at rest
      obtain ⟨later, links, last⟩ := Action.result_bind_ok rest
      cases last
      obtain ⟨length, linked, serialized⟩ := ih taken.2.2.2 links
      refine ⟨congrArg Nat.succ length, ⟨(selfTransferOf_ok link).1, _, newUtxos_unpadded coin, linked⟩,
        List.forall_mem_cons.mpr ⟨taken.2.2.1, serialized⟩⟩

/-- Links scanned leave what the last of them pays, each dropping what the one before paid. -/
theorem scanAll_links (chain : List Tx) : ∀ {coin : Utxo} (wallet : Wallet), Links lib coin chain →
    (wallet.scanAll lib chain).utxos =
      (wallet.utxos.filter fun utxo => utxo.outpoint ∉ chain.flatMap Tx.spends) ++
        chain.getLast?.toList.flatMap (Wallet.newUtxos lib) := by
  induction chain with
  | nil =>
      intro coin wallet _
      simp [Wallet.scanAll]
  | cons tx rest ih =>
      intro coin wallet links
      obtain ⟨spends, next, pays, later⟩ := links
      have scanned : (wallet.scanTx lib tx).utxos =
          (wallet.utxos.filter fun utxo => utxo.outpoint ∉ tx.spends) ++ [next] := by
        rw [← pays]
        rfl
      have step : wallet.scanAll lib (tx :: rest) = (wallet.scanTx lib tx).scanAll lib rest := rfl
      rw [step, ih _ later, scanned]
      cases rest with
      | nil => simp [pays]
      | cons second others =>
          have spent : next.outpoint ∈ (second :: others).flatMap Tx.spends := by
            rw [List.flatMap_cons, later.1]
            exact List.mem_append_left _ (List.mem_singleton_self _)
          have dropped : [next].filter (fun utxo : Utxo =>
              utxo.outpoint ∉ (second :: others).flatMap Tx.spends) = [] := by
            rw [List.filter_eq_nil_iff]
            intro utxo member kept
            rw [List.mem_singleton.mp member] at kept
            exact of_decide_eq_true kept spent
          rw [List.getLast?_cons_cons, List.filter_append, List.filter_filter, dropped,
            List.append_nil]
          congr 1
          refine List.filter_congr fun utxo _ => ?_
          rw [← Bool.decide_and, decide_eq_decide, and_comm]
          simp only [List.flatMap_cons, List.mem_append, not_or]

theorem Links.take {coin : Utxo} {chain : List Tx} (links : Links lib coin chain) (count : Nat) :
    Links lib coin (chain.take count) := by
  induction chain generalizing coin count with
  | nil =>
      rw [List.take_nil]
      exact links
  | cons tx rest ih =>
      cases count with
      | zero => trivial
      | succ count =>
          obtain ⟨spends, next, pays, later⟩ := links
          exact ⟨spends, next, pays, ih later count⟩

/-- A cache that holds the coin once, and no other coin the transactions spend, loses that
coin alone. -/
theorem Wallet.cacheAfter_of_apart {wallet : Wallet} {coin : Utxo} {accepted : List Tx}
    (distinct : wallet.outpoints.Nodup)
    (apart : ∀ utxo ∈ wallet.utxos, utxo.outpoint ∈ accepted.flatMap Tx.spends → utxo = coin) :
    wallet.cacheAfter lib coin accepted =
      wallet.utxos.erase coin ++ accepted.getLast?.toList.flatMap (Wallet.newUtxos lib) := by
  rw [cacheAfter, List.filter_eq_self.mpr]
  intro utxo member
  have once : wallet.utxos.Nodup := distinct.of_map
  obtain ⟨other, cached⟩ := once.mem_erase_iff.mp member
  exact decide_eq_true fun spent => other (apart utxo cached spent)

end Chain

/-! ## The broadcasts -/

section Broadcasts

variable {ω : Type} {lib : Btclib} {env : Environment ω} {tx : Tx}

/-- The node fails the broadcast, or answers it with something other than the id. -/
def Refuses (lib : Btclib) (env : Environment ω) (tx : Tx) (world final : ω) : Prop :=
  ∃ octets outcome, lib.serialize tx = some octets ∧
    env.call "sendrawtransaction" [.str (hex octets), .int 0] world = (outcome, final) ∧
    ∀ answer, outcome = .ok answer → answer.asStr ≠ some (hex (lib.txId tx))

namespace Session

theorem send_accepted {session : Session ω} {octets : List Octet} {answer : Json} {world : ω}
    (serialized : lib.serialize tx = some octets)
    (answered : env.call "sendrawtransaction" [.str (hex octets), .int 0] session.world =
      (.ok answer, world))
    (isId : answer.asStr = some (hex (lib.txId tx))) :
    send lib env tx session =
      (.ok tx, { session with wallet := session.wallet.scanTx lib tx, world := world }) := by
  rw [send, serialized, Action.bind_of_ok _ (orRaise_some _ _ _),
    Action.bind_of_ok _ (onWorld_of (rpcCall_of_ok answered)), expectId, if_pos isId]
  rfl

theorem send_refused {session : Session ω} {world : ω}
    (refuses : Refuses lib env tx session.world world) :
    ∃ raised, send lib env tx session = (.error raised, { session with world := world }) := by
  obtain ⟨octets, outcome, serialized, answered, notId⟩ := refuses
  rw [send, serialized, Action.bind_of_ok _ (orRaise_some _ _ _)]
  cases outcome with
  | error failure =>
      exact ⟨_, Action.bind_of_error _ (onWorld_of (rpcCall_of_error answered))⟩
  | ok answer =>
      rw [Action.bind_of_ok _ (onWorld_of (rpcCall_of_ok answered)), expectId,
        if_neg (notId answer rfl)]
      exact ⟨_, rfl⟩

/-- The transactions accepted are scanned, and what comes after them is sent then. -/
theorem sendEach_accepted (accepted : List Tx) (rest : List Tx) :
    ∀ {session : Session ω} {world : ω}, Accepts lib env accepted session.world world →
      sendEach lib env (accepted ++ rest) session = sendEach lib env rest
        { session with wallet := session.wallet.scanAll lib accepted, world := world } := by
  induction accepted with
  | nil =>
      intro session world accepts
      cases accepts
      rfl
  | cons tx accepted ih =>
      intro session world accepts
      cases accepts with
      | cons serialized answered isId later =>
          rw [List.cons_append, sendEach, Action.bind_of_ok _ (send_accepted serialized answered isId),
            ih later]
          rfl

/-- The coin is taken from the cache, and the transactions accepted are scanned. -/
def afterSent (lib : Btclib) (coin : Utxo) (accepted : List Tx) (world : ω) (session : Session ω) :
    Session ω :=
  { session with
    wallet := ({ session.wallet.sorted with
      utxos := session.wallet.sorted.utxos.erase coin } : Wallet).scanAll lib accepted
    world := world }

theorem sendSelfTransferChain_eq {session : Session ω} {count : Nat} {coin : Utxo} {chain : List Tx}
    (isPicked : session.wallet.picked false = some coin)
    (made : chainOf lib (count + 1) coin = .ok chain) :
    sendSelfTransferChain lib env (count + 1 : Nat) none session =
      (sendEach lib env chain >>= fun _ => pure chain)
        (session.afterSent lib coin [] session.world) := by
  have built : createSelfTransferChain lib (count + 1 : Nat) none session =
      (.ok chain, { session with wallet := { session.wallet.sorted with
        utxos := session.wallet.sorted.utxos.erase coin } }) := by
    rw [createSelfTransferChain, Int.toNat_natCast, createChainFrom_picks,
      Action.bind_of_ok _ (getUtxo_picks isPicked), orThrow, made]
  rw [sendSelfTransferChain, Action.bind_of_ok _ built]
  rfl

theorem afterSent_cacheAfter {session : Session ω} {coin : Utxo} {accepted : List Tx} {world : ω}
    (links : Links lib coin accepted) :
    (session.afterSent lib coin accepted world).wallet.utxos.Perm
      (session.wallet.cacheAfter lib coin accepted) := by
  rw [afterSent, scanAll_links accepted _ links]
  exact (((sorted_perm session.wallet).erase coin).filter _).append_right _

/-- For every chain the coin pays the fees of: each link spends the output of the one before
it, and however many of them the node accepts before it refuses one, the cache is the old one
without the coin and the coins they spend, and with what the last of them pays.  The coin is
all they spend of a cache that holds no output of the chain already. -/
theorem sendSelfTransferChain_leaves {session : Session ω} {count : Nat} {coin : Utxo}
    (positive : 0 < count) (isPicked : session.wallet.picked false = some coin)
    (taken : ChainTaken lib count coin) (large : count * defaultFee lib coin < coin.value) :
    ∃ chain, chain.length = count ∧ Links lib coin chain ∧
      (∀ world, Accepts lib env chain session.world world → ∃ reached,
        sendSelfTransferChain lib env count none session = (.ok chain, reached) ∧
          reached.world = world ∧
          reached.wallet.utxos.Perm (session.wallet.cacheAfter lib coin chain)) ∧
      (∀ k tx middle world, chain[k]? = some tx →
        Accepts lib env (chain.take k) session.world middle → Refuses lib env tx middle world →
        ∃ raised reached,
          sendSelfTransferChain lib env count none session = (.error raised, reached) ∧
          reached.world = world ∧
          reached.wallet.utxos.Perm (session.wallet.cacheAfter lib coin (chain.take k))) ∧
      ∀ accepted, accepted <+: chain → session.wallet.outpoints.Nodup →
        (∀ utxo ∈ session.wallet.utxos,
          utxo.outpoint ∈ accepted.flatMap Tx.spends → utxo = coin) →
        session.wallet.cacheAfter lib coin accepted = session.wallet.utxos.erase coin ++
          accepted.getLast?.toList.flatMap (Wallet.newUtxos lib) := by
  obtain ⟨length, rfl⟩ : ∃ length, count = length + 1 := ⟨count - 1, by omega⟩
  obtain ⟨chain, made⟩ := returns_chainOf_iff.mpr (chainFits_of_large _ taken large)
  obtain ⟨isLength, links, serialized⟩ := chainOf_links _ taken made
  have run := @sendSelfTransferChain_eq _ _ env _ _ _ _ isPicked made
  refine ⟨chain, isLength, links, fun world accepts => ?_, fun k tx middle world isTx accepts
    refuses => ?_, fun accepted _ distinct apart => Wallet.cacheAfter_of_apart distinct apart⟩
  · have sent : sendEach lib env chain (session.afterSent lib coin [] session.world) =
        (.ok (), session.afterSent lib coin chain world) := by
      have all := @sendEach_accepted _ _ env chain [] (session.afterSent lib coin [] session.world)
        _ accepts
      rwa [List.append_nil] at all
    refine ⟨session.afterSent lib coin chain world, ?_, rfl, afterSent_cacheAfter links⟩
    rw [run, Action.bind_of_ok _ sent]
    rfl
  · obtain ⟨inside, isTx⟩ := List.getElem?_eq_some_iff.mp isTx
    have parts : chain.take k ++ tx :: chain.drop (k + 1) = chain := by
      rw [← isTx, ← List.drop_eq_getElem_cons inside, List.take_append_drop]
    have refused : Refuses lib env tx (session.afterSent lib coin (chain.take k) middle).world world :=
      refuses
    obtain ⟨raised, raises⟩ := send_refused refused
    have sent : sendEach lib env chain (session.afterSent lib coin [] session.world) =
        (.error raised, session.afterSent lib coin (chain.take k) world) := by
      have before := @sendEach_accepted _ _ env (chain.take k) (tx :: chain.drop (k + 1))
        (session.afterSent lib coin [] session.world) _ accepts
      rw [parts, sendEach] at before
      exact before.trans (Action.bind_of_error _ raises)
    refine ⟨raised, session.afterSent lib coin (chain.take k) world, ?_, rfl,
      afterSent_cacheAfter (links.take k)⟩
    rw [run, Action.bind_of_error _ sent]

def chainCoin : Utxo := ⟨⟨[1], 0⟩, 1000000, 0, false⟩

def beforeChain (utxos : List Utxo) : Session Unit := ⟨⟨utxos, ∅, [1], 3, 110⟩, (), [], []⟩

theorem chainCoin_taken : ChainTaken PlainLib.lib 2 chainCoin :=
  ⟨rfl, rfl, rfl, rfl, rfl, rfl, trivial⟩

theorem echo_accepts (txs : List Tx) : Accepts PlainLib.lib echo txs () () := by
  induction txs with
  | nil => exact .nil
  | cons tx rest ih => exact .cons rfl rfl rfl ih

theorem sendSelfTransferChain_leaves_two : ∃ chain reached,
    sendSelfTransferChain PlainLib.lib echo 2 none (beforeChain [chainCoin]) = (.ok chain, reached) ∧
      chain.length = 2 ∧ Links PlainLib.lib chainCoin chain ∧
      reached.wallet.utxos.Perm
        ((beforeChain [chainCoin]).wallet.cacheAfter PlainLib.lib chainCoin chain) := by
  obtain ⟨chain, length, links, sent, _⟩ := @sendSelfTransferChain_leaves _ PlainLib.lib echo
    (beforeChain [chainCoin]) 2 chainCoin (by decide) (by decide +kernel) chainCoin_taken
    (by decide +kernel)
  obtain ⟨reached, run, _, cache⟩ := sent () (echo_accepts chain)
  exact ⟨chain, reached, run, length, links, cache⟩

/-- A cache that holds the first link's output already loses it to the second link. -/
theorem sendSelfTransferChain_spends_cached :
    let session := beforeChain [chainCoin, linked PlainLib.lib chainCoin]
    session.wallet.outpoints.Nodup ∧ session.wallet.picked false = some chainCoin ∧
      ChainTaken PlainLib.lib 2 chainCoin ∧ 2 * defaultFee PlainLib.lib chainCoin < chainCoin.value ∧
      (∀ txs, Accepts PlainLib.lib echo txs () ()) ∧
      ∃ chain reached, sendSelfTransferChain PlainLib.lib echo 2 none session = (.ok chain, reached) ∧
        ∀ last, ¬ reached.wallet.utxos.Perm (session.wallet.utxos.erase chainCoin ++ [last]) := by
  intro session
  have isOk : (sendSelfTransferChain PlainLib.lib echo 2 none session).1.isOk := by decide +kernel
  have left : (sendSelfTransferChain PlainLib.lib echo 2 none session).2.wallet.utxos.length = 1 := by
    decide +kernel
  refine ⟨by decide +kernel, by decide +kernel, chainCoin_taken, by decide +kernel, echo_accepts, ?_⟩
  rcases run : sendSelfTransferChain PlainLib.lib echo 2 none session with ⟨error | chain, reached⟩
  · rw [run] at isOk
    cases isOk
  · rw [run] at left
    refine ⟨chain, reached, rfl, fun last same => ?_⟩
    have lengths : 1 = 2 := left.symm.trans same.length_eq
    omega

end Session

end Broadcasts

end BitcoinNodeTests
