import BitcoinNodeTests.Foundation.Preferred
import BitcoinNodeTests.MiniWallet.Calls

/-!
# The coin `get_utxo` prefers

`candidates` filters the sorted cache four ways and scans it from its one end where a txid is
named and from the other where none is.  `Passes` is what the filters say of one coin, and
`Prefers` what the order of the scan says of two.
-/

set_option autoImplicit false

namespace BitcoinNodeTests

open Foundation

namespace Wallet

variable {wallet : Wallet} {txid : Option String} {vout : Option Int} {confirmedOnly : Bool}
  {coin : Utxo}

/-- The coin passes every filter: paid by the named transaction, or mature where none is
named, at the named output, in a block where only those are asked for. -/
def Passes (wallet : Wallet) (txid : Option String) (vout : Option Int) (confirmedOnly : Bool)
    (coin : Utxo) : Prop :=
  (∀ named ∈ txid, hex coin.outpoint.txId = named) ∧ (txid = none → wallet.isMature coin) ∧
    (∀ named ∈ vout, (coin.outpoint.vout : Int) = named) ∧ (confirmedOnly → coin.confirmed)

instance : DecidablePred (wallet.Passes txid vout confirmedOnly) := fun coin =>
  inferInstanceAs (Decidable ((∀ named ∈ txid, hex coin.outpoint.txId = named) ∧
    (txid = none → wallet.isMature coin) ∧ (∀ named ∈ vout, (coin.outpoint.vout : Int) = named) ∧
    (confirmedOnly → coin.confirmed)))

/-- Without a txid a coin is preferred to one of smaller value, and of equal value to one
no lower; with a txid it is the other way round. -/
def Prefers (txid : Option String) (coin other : Utxo) : Prop :=
  match txid with
  | none => other.value < coin.value ∨ other.value = coin.value ∧ coin.height ≤ other.height
  | some _ => coin.value < other.value ∨ coin.value = other.value ∧ other.height ≤ coin.height

def scanOrder (txid : Option String) (wallet : Wallet) : List Utxo :=
  match txid with
  | none => wallet.utxos.reverse
  | some _ => wallet.utxos

theorem candidates_eq :
    wallet.candidates txid vout confirmedOnly =
      (wallet.scanOrder txid).filter (wallet.Passes txid vout confirmedOnly) := by
  have settled (coins : List Utxo) :
      (if confirmedOnly then coins.filter Utxo.confirmed else coins) =
        coins.filter fun utxo => confirmedOnly → utxo.confirmed := by
    cases confirmedOnly with
    | true => simp
    | false => simp
  refine (settled _).trans ?_
  cases vout with
  | none =>
      cases txid with
      | none =>
          refine (List.filter_filter ..).trans (List.filter_congr fun coin _ => ?_)
          simp [Passes, Bool.and_comm]
      | some txid =>
          refine (List.filter_filter ..).trans (List.filter_congr fun coin _ => ?_)
          simp [Passes, Bool.and_comm]
  | some vout =>
      cases txid with
      | none =>
          refine (congrArg (List.filter _) (List.filter_filter ..)).trans ?_
          refine (List.filter_filter ..).trans (List.filter_congr fun coin _ => ?_)
          simp [Passes, Bool.and_comm, Bool.and_left_comm, Bool.and_assoc]
      | some txid =>
          refine (congrArg (List.filter _) (List.filter_filter ..)).trans ?_
          refine (List.filter_filter ..).trans (List.filter_congr fun coin _ => ?_)
          simp [Passes, Bool.and_comm, Bool.and_left_comm, Bool.and_assoc]

theorem mem_scanOrder : coin ∈ wallet.scanOrder txid ↔ coin ∈ wallet.utxos := by
  cases txid with
  | none => exact List.mem_reverse
  | some named => exact Iff.rfl

theorem candidates_cached (candidate : coin ∈ wallet.candidates txid vout confirmedOnly) :
    coin ∈ wallet.utxos := by
  rw [candidates_eq] at candidate
  exact mem_scanOrder.mp (List.mem_of_mem_filter candidate)

instance : Std.Refl sortOrder := ⟨fun _ => .inr ⟨rfl, Int.le_refl _⟩⟩

instance : IsTrans Utxo sortOrder := ⟨fun first second third before after => by
  unfold sortOrder at *
  omega⟩

instance : Std.Total sortOrder := ⟨fun first second => by
  unfold sortOrder
  omega⟩

theorem sorted_pairwise (wallet : Wallet) : wallet.sorted.utxos.Pairwise sortOrder :=
  List.pairwise_insertionSort sortOrder wallet.utxos

theorem preferred_of_candidates
    (isHead : (wallet.sorted.candidates txid vout confirmedOnly).head? = some coin) :
    Preferred (Prefers txid) (wallet.Passes txid vout confirmedOnly) wallet.utxos coin := by
  have sorted := sorted_pairwise wallet
  rw [candidates_eq] at isHead
  refine Preferred.of_perm ?_ (Session.sorted_perm wallet)
  cases txid with
  | none =>
      have last : Preferred (fun coin other => sortOrder other coin) _ _ _ :=
        preferred_of_head_reverse sorted isHead
      exact last
  | some named =>
      have least : Preferred sortOrder _ _ _ := preferred_of_head sorted isHead
      exact least

theorem candidates_none_iff :
    (wallet.sorted.candidates txid vout confirmedOnly).head? = none ↔
      ∀ coin ∈ wallet.utxos, ¬ wallet.Passes txid vout confirmedOnly coin := by
  have same (coin : Utxo) : coin ∈ wallet.sorted.scanOrder txid ↔ coin ∈ wallet.utxos := by
    rw [← (Session.sorted_perm wallet).mem_iff]
    exact mem_scanOrder
  rw [candidates_eq, filter_head_none]
  exact forall_congr' fun coin => imp_congr_left (same coin)

end Wallet

namespace Session

variable {ω : Type}

theorem getUtxo_preferred (session : Session ω) (txid : Option String) (vout : Option Int)
    (markAsSpent confirmedOnly : Bool) :
    let run := getUtxo txid vout markAsSpent confirmedOnly session
    let passes := session.wallet.Passes txid vout confirmedOnly
    (∀ coin, run.1 = .ok coin →
      Preferred (Wallet.Prefers txid) passes session.wallet.utxos coin) ∧
    ((∃ text, run.1 = .error (.lookupError text)) ↔ ∀ coin ∈ session.wallet.utxos, ¬ passes coin) ∧
    (∀ raised, run.1 = .error raised → ∃ text, raised = .lookupError text) ∧
    run.2.wallet.utxos.Pairwise Wallet.sortOrder ∧
    session.wallet.utxos.Perm ((match run.1 with
      | .ok coin => if markAsSpent then [coin] else []
      | .error _ => []) ++ run.2.wallet.utxos) ∧
    run.2 = { session with wallet := { session.wallet with utxos := run.2.wallet.utxos } } := by
  have sorted := Wallet.sorted_pairwise session.wallet
  have perm := (sorted_perm session.wallet).symm
  have noneIff := @Wallet.candidates_none_iff session.wallet txid vout confirmedOnly
  cases isHead : (session.wallet.sorted.candidates txid vout confirmedOnly).head? with
  | none =>
      rw [getUtxo_lacks isHead]
      exact ⟨nofun, ⟨fun _ => noneIff.mp isHead, fun _ => ⟨_, rfl⟩⟩,
        fun _ raised => ⟨_, (Except.error.inj raised).symm⟩, sorted, perm, rfl⟩
  | some coin =>
      have preferred := Wallet.preferred_of_candidates isHead
      have cached := (sorted_perm session.wallet).mem_iff.mpr preferred.among
      rw [getUtxo_first isHead]
      refine ⟨fun _ same => Except.ok.inj same ▸ preferred, ⟨nofun, fun nothing => ?_⟩, nofun,
        ?_, ?_, rfl⟩
      · exact absurd preferred.passing (nothing coin preferred.among)
      · cases markAsSpent with
        | true => exact sorted.sublist List.erase_sublist
        | false => exact sorted
      · cases markAsSpent with
        | true => exact perm.trans (List.perm_cons_erase cached)
        | false => exact perm

end Session

end BitcoinNodeTests
