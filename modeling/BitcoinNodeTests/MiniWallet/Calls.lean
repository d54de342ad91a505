import Mathlib.Data.List.Perm.Subperm
import BitcoinNodeTests.MiniWallet.Spend
import BitcoinNodeTests.MiniWallet.Turn

/-!
# The public calls of a wallet

`Call` is one call with its arguments and `perform` the session it leaves, whether it
returned or raised.  The calls that build transactions and those that read the cache
can only take coins out of it: `Thinner` says so of every such step, and `Turn` and
`Sent` are the steps that put coins in.
-/

set_option autoImplicit false

namespace BitcoinNodeTests

open Foundation

inductive Call where
  | generate (count : Int) (confirm : List Tx)
  | resync
  | getUtxo (txid : Option String) (vout : Option Int) (markAsSpent confirmedOnly : Bool)
  | getUtxos (includeImmatureCoinbase markAsSpent confirmedOnly : Bool)
  | createSelfTransfer (options : SelfTransfer)
  | createSelfTransferMulti (options : SelfTransferMulti)
  | createSelfTransferChain (chainLength : Int) (utxoToSpend : Option Utxo)
  | sendSelfTransfer (options : SelfTransfer)
  | sendSelfTransferMulti (options : SelfTransferMulti)
  | sendSelfTransferChain (chainLength : Int) (utxoToSpend : Option Utxo)
  | sendTo (scriptPubKey : List Octet) (value : Int)

/-- The node answers the broadcast of each transaction with its id, in order. -/
inductive Accepts {ω : Type} (lib : Btclib) (env : Environment ω) : List Tx → ω → ω → Prop where
  | nil {world : ω} : Accepts lib env [] world world
  | cons {tx : Tx} {rest : List Tx} {octets : List Octet} {answer : Json} {world middle final : ω}
      (serialized : lib.serialize tx = some octets)
      (answered : env.call "sendrawtransaction" [.str (hex octets), .int 0] world =
        (.ok answer, middle))
      (isId : answer.asStr = some (hex (lib.txId tx))) (later : Accepts lib env rest middle final) :
      Accepts lib env (tx :: rest) world final

namespace Session

variable {ω : Type}

def perform (lib : Btclib) (env : Environment ω) (call : Call) (session : Session ω) : Session ω :=
  match call with
  | .generate count confirm => (generate lib env count confirm session).2
  | .resync => (resync env session).2
  | .getUtxo txid vout markAsSpent confirmedOnly =>
      (getUtxo txid vout markAsSpent confirmedOnly session).2
  | .getUtxos includeImmatureCoinbase markAsSpent confirmedOnly =>
      (getUtxos includeImmatureCoinbase markAsSpent confirmedOnly session).2
  | .createSelfTransfer options => (createSelfTransfer lib options session).2
  | .createSelfTransferMulti options => (createSelfTransferMulti lib options session).2
  | .createSelfTransferChain chainLength utxoToSpend =>
      (createSelfTransferChain lib chainLength utxoToSpend session).2
  | .sendSelfTransfer options => (sendSelfTransfer lib env options session).2
  | .sendSelfTransferMulti options => (sendSelfTransferMulti lib env options session).2
  | .sendSelfTransferChain chainLength utxoToSpend =>
      (sendSelfTransferChain lib env chainLength utxoToSpend session).2
  | .sendTo scriptPubKey value => (sendTo lib env scriptPubKey value session).2

/-! ## Steps that take coins out -/

/-- The cache holds some of the coins it held, in any order, and nothing else changed. -/
structure Thinner (session reached : Session ω) : Prop where
  coins : reached.wallet.utxos.Subperm session.wallet.utxos
  same : reached = { session with wallet := { session.wallet with utxos := reached.wallet.utxos } }

theorem Thinner.refl (session : Session ω) : Thinner session session :=
  ⟨List.Subperm.refl _, rfl⟩

theorem Thinner.trans {session middle reached : Session ω} (first : Thinner session middle)
    (second : Thinner middle reached) : Thinner session reached := by
  refine ⟨second.coins.trans first.coins, ?_⟩
  have sameFirst := first.same
  have sameSecond := second.same
  rw [sameFirst] at sameSecond
  exact sameSecond

variable {session reached : Session ω}

section GetUtxo

variable {txid : Option String} {vout : Option Int} {markAsSpent confirmedOnly : Bool}

theorem getUtxo_first {coin : Utxo}
    (isHead : (session.wallet.sorted.candidates txid vout confirmedOnly).head? = some coin) :
    getUtxo txid vout markAsSpent confirmedOnly session =
      (.ok coin, { session with wallet := { session.wallet.sorted with
        utxos := if markAsSpent then session.wallet.sorted.utxos.erase coin
          else session.wallet.sorted.utxos } }) := by
  simp only [getUtxo, onWallet, Action.update_bind, Action.read_bind, isHead]
  cases markAsSpent with
  | true => rfl
  | false => rfl

theorem getUtxo_lacks
    (nothing : (session.wallet.sorted.candidates txid vout confirmedOnly).head? = none) :
    getUtxo txid vout markAsSpent confirmedOnly session =
      (.error (.lookupError (Wallet.noCandidate txid vout confirmedOnly)),
        { session with wallet := session.wallet.sorted }) := by
  simp only [getUtxo, onWallet, Action.update_bind, Action.read_bind, nothing]
  rfl

end GetUtxo

theorem sorted_perm (wallet : Wallet) : wallet.sorted.utxos.Perm wallet.utxos :=
  List.perm_insertionSort _ _

instance : IsPreorder (Session ω) Thinner where
  refl := Thinner.refl
  trans _ _ _ := Thinner.trans

abbrev Thins {α : Type} (action : Action (Session ω) WalletRaised α) : Prop :=
  Action.Moves Thinner action

section Thins

variable {α : Type} {lib : Btclib}

theorem orRaise_thins (error : WalletRaised) (answer : Option α) :
    Thins (orRaise error answer : Action (Session ω) WalletRaised α) := by
  apply Action.Moves.unchanged
  intro session
  cases answer with
  | none => rfl
  | some value => rfl

theorem orThrow_thins (result : Except WalletRaised α) :
    Thins (orThrow result : Action (Session ω) WalletRaised α) :=
  Action.Moves.unchanged fun _ => rfl

theorem onWallet_thins {change : Wallet → Wallet}
    (thins : ∀ wallet, (change wallet).utxos.Subperm wallet.utxos ∧
      change wallet = { wallet with utxos := (change wallet).utxos }) :
    Thins (onWallet change : Action (Session ω) WalletRaised Unit) := by
  intro session
  obtain ⟨coins, same⟩ := thins session.wallet
  exact ⟨coins, congrArg (fun wallet => { session with wallet := wallet }) same⟩

theorem getUtxo_thins (txid : Option String) (vout : Option Int)
    (markAsSpent confirmedOnly : Bool) :
    Thins (getUtxo txid vout markAsSpent confirmedOnly : Action (Session ω) WalletRaised Utxo) := by
  unfold getUtxo
  apply Action.Moves.bind
  · exact onWallet_thins fun wallet => ⟨(sorted_perm wallet).subperm, rfl⟩
  intro _
  apply Action.Moves.bind
  · exact Action.Moves.unchanged fun _ => rfl
  intro candidates
  apply Action.Moves.bind (orRaise_thins _ _)
  intro utxo
  apply Action.Moves.bind
  · apply onWallet_thins
    intro wallet
    cases markAsSpent with
    | true => exact ⟨List.erase_sublist.subperm, rfl⟩
    | false => exact ⟨List.Subperm.refl _, rfl⟩
  · exact fun _ => Action.Moves.unchanged fun _ => rfl

theorem getUtxos_thins (includeImmatureCoinbase markAsSpent confirmedOnly : Bool) :
    Thins (getUtxos includeImmatureCoinbase markAsSpent confirmedOnly :
      Action (Session ω) WalletRaised (List Utxo)) := by
  intro session
  cases markAsSpent with
  | true => exact ⟨(List.nil_sublist _).subperm, rfl⟩
  | false => exact Thinner.refl session

theorem pickCoin_thins (confirmedOnly : Bool) (utxo : Option Utxo) :
    Thins (pickCoin confirmedOnly utxo : Action (Session ω) WalletRaised Utxo) := by
  cases utxo with
  | none => exact getUtxo_thins none none true confirmedOnly
  | some utxo => exact Action.Moves.unchanged fun _ => rfl

theorem createSelfTransfer_thins (lib : Btclib) (options : SelfTransfer) :
    Thins (createSelfTransfer lib options : Action (Session ω) WalletRaised Tx) := by
  unfold createSelfTransfer
  by_cases negative : options.feeRate < 0 ∨ options.fee < 0
  · rw [if_pos negative]
    exact Action.Moves.unchanged fun _ => rfl
  · rw [if_neg negative]
    exact Action.Moves.bind (pickCoin_thins _ _) fun _ => orThrow_thins _

theorem createSelfTransferMulti_thins (lib : Btclib) (options : SelfTransferMulti) :
    Thins (createSelfTransferMulti lib options : Action (Session ω) WalletRaised Tx) := by
  unfold createSelfTransferMulti
  apply Action.Moves.bind
  · cases options.utxosToSpend with
    | none =>
        exact Action.Moves.bind (getUtxo_thins none none true _) fun _ => Action.Moves.unchanged fun _ => rfl
    | some utxos => exact Action.Moves.unchanged fun _ => rfl
  · exact fun _ => orThrow_thins _

theorem createChainFrom_thins (lib : Btclib) (count : Nat) (utxo : Option Utxo) :
    Thins (createChainFrom lib count utxo : Action (Session ω) WalletRaised (List Tx)) := by
  induction count generalizing utxo with
  | zero => exact Action.Moves.unchanged fun _ => rfl
  | succ count ih =>
      unfold createChainFrom
      apply Action.Moves.bind (createSelfTransfer_thins lib _)
      intro tx
      apply Action.Moves.bind (orRaise_thins _ _)
      intro next
      apply Action.Moves.bind (ih (some next))
      exact fun _ => Action.Moves.unchanged fun _ => rfl

end Thins

/-! ## Steps that put coins in -/

/-- What `_send` does: raise with the cache as it was, or scan the transaction in the
world its broadcast leaves, the node having answered its id. -/
inductive Sent (lib : Btclib) (env : Environment ω) (tx : Tx) (session : Session ω) :
    Except WalletRaised Tx × Session ω → Prop where
  | unserialized (none : lib.serialize tx = none) :
      Sent lib env tx session (.error .btclibValueError, session)
  | refused {octets : List Octet} {outcome : Except RpcFailure Json} {world : ω}
      {error : WalletRaised} (serialized : lib.serialize tx = some octets)
      (answered : env.call "sendrawtransaction" [.str (hex octets), .int 0] session.world =
        (outcome, world))
      (notId : ∀ answer, outcome = .ok answer → answer.asStr ≠ some (hex (lib.txId tx))) :
      Sent lib env tx session (.error error, { session with world := world })
  | scanned {octets : List Octet} {answer : Json} {world : ω}
      (serialized : lib.serialize tx = some octets)
      (answered : env.call "sendrawtransaction" [.str (hex octets), .int 0] session.world =
        (.ok answer, world))
      (isId : answer.asStr = some (hex (lib.txId tx))) :
      Sent lib env tx session
        (.ok tx, { session with wallet := session.wallet.scanTx lib tx, world := world })

theorem send_sent (lib : Btclib) (env : Environment ω) (tx : Tx) (session : Session ω) :
    Sent lib env tx session (send lib env tx session) := by
  unfold send
  cases serialized : lib.serialize tx with
  | none => exact .unserialized serialized
  | some octets =>
      rw [Action.bind_of_ok _ (orRaise_some _ octets _)]
      rcases answered : env.call "sendrawtransaction" [.str (hex octets), .int 0] session.world with
        ⟨failure | answer, world⟩
      · rw [Action.bind_of_error _ (onWorld_of (rpcCall_of_error answered))]
        exact .refused serialized answered fun _ impossible => by cases impossible
      · rw [Action.bind_of_ok _ (onWorld_of (rpcCall_of_ok answered)), expectId]
        by_cases isId : answer.asStr = some (hex (lib.txId tx))
        · rw [if_pos isId]
          exact .scanned serialized answered isId
        · rw [if_neg isId]
          refine .refused serialized answered ?_
          intro answer' sameAnswer
          cases sameAnswer
          exact isId

end Session

end BitcoinNodeTests
