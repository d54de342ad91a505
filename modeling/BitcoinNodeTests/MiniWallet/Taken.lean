import BitcoinNodeTests.MiniWallet.Refused

/-!
# The coins a call takes

Coins leave the cache unspent in one way: `get_utxo` and `get_utxos` hand them to the caller,
or to a method that builds a transaction.  `takes` says which coins a call takes, from the
cache it is made on, and `Takes` that those and no others are gone.
-/

set_option autoImplicit false

namespace BitcoinNodeTests

open Foundation

namespace Wallet

def pickedFor {α : Type} (confirmedOnly : Bool) (named : Option α) (wallet : Wallet) :
    List OutPoint :=
  match named with
  | some _ => []
  | none => ((wallet.picked confirmedOnly).map Utxo.outpoint).toList

end Wallet

/-- A negative rate or fee is refused before any coin is taken. -/
def SelfTransfer.takes (options : SelfTransfer) (wallet : Wallet) : List OutPoint :=
  if options.feeRate < 0 ∨ options.fee < 0 then []
  else wallet.pickedFor options.confirmedOnly options.utxoToSpend

def SelfTransferMulti.takes (options : SelfTransferMulti) (wallet : Wallet) : List OutPoint :=
  wallet.pickedFor options.confirmedOnly options.utxosToSpend

/-- The first link of a chain takes a coin, and the others what the one before pays. -/
def chainTakes (chainLength : Int) (utxoToSpend : Option Utxo) (wallet : Wallet) : List OutPoint :=
  if chainLength ≤ 0 then [] else wallet.pickedFor false utxoToSpend

def Call.takes (wallet : Wallet) : Call → List OutPoint
  | .generate _ _ => []
  | .resync => []
  | .getUtxo txid vout markAsSpent confirmedOnly =>
      if markAsSpent then
        (((wallet.sorted.candidates txid vout confirmedOnly).head?).map Utxo.outpoint).toList
      else []
  | .getUtxos _ markAsSpent _ => if markAsSpent then wallet.outpoints else []
  | .createSelfTransfer options => options.takes wallet
  | .createSelfTransferMulti options => options.takes wallet
  | .createSelfTransferChain chainLength utxoToSpend => chainTakes chainLength utxoToSpend wallet
  | .sendSelfTransfer options => options.takes wallet
  | .sendSelfTransferMulti options => options.takes wallet
  | .sendSelfTransferChain chainLength utxoToSpend => chainTakes chainLength utxoToSpend wallet
  | .sendTo _ _ => ((wallet.picked false).map Utxo.outpoint).toList

namespace Session

variable {ω α β : Type} {lib : Btclib} {session reached : Session ω}

/-- The coins at `outpoints` are gone and no others, and nothing else changed. -/
structure Takes (outpoints : List OutPoint) (session reached : Session ω) : Prop where
  thinner : Thinner session reached
  coins : ∀ utxo, utxo ∈ reached.wallet.utxos ↔
    utxo ∈ session.wallet.utxos ∧ utxo.outpoint ∉ outpoints
  cached : ∀ outpoint ∈ outpoints, outpoint ∈ session.wallet.outpoints

theorem Takes.nothing (session : Session ω) : Takes [] session session :=
  ⟨.refl session, by simp, nofun⟩

theorem Takes.bind {first : Action (Session ω) WalletRaised α}
    {next : α → Action (Session ω) WalletRaised β} {outpoints : List OutPoint}
    (takes : Takes outpoints session (first session).2)
    (same : ∀ value reached, (next value reached).2 = reached) :
    Takes outpoints session ((first >>= next) session).2 := by
  rw [Action.bind_apply]
  rcases run : first session with ⟨error | value, middle⟩
  · rw [run] at takes
    exact takes
  · rw [run] at takes
    dsimp only
    rw [same]
    exact takes

theorem mem_erase_iff {coins : List Utxo} (distinct : (coins.map Utxo.outpoint).Nodup)
    {coin : Utxo} (cached : coin ∈ coins) (utxo : Utxo) :
    utxo ∈ coins.erase coin ↔ utxo ∈ coins ∧ utxo.outpoint ∉ [coin.outpoint] := by
  rw [distinct.of_map.mem_erase_iff, and_comm, List.mem_singleton]
  refine and_congr_right fun member => not_congr ⟨congrArg Utxo.outpoint, fun same => ?_⟩
  exact List.inj_on_of_nodup_map distinct member cached same

theorem getUtxo_takes (distinct : session.wallet.outpoints.Nodup) (txid : Option String)
    (vout : Option Int) (markAsSpent confirmedOnly : Bool) :
    Takes ((Call.getUtxo txid vout markAsSpent confirmedOnly).takes session.wallet) session
      (getUtxo txid vout markAsSpent confirmedOnly session).2 := by
  have thinner := getUtxo_thins txid vout markAsSpent confirmedOnly session
  have sameCoins (utxo : Utxo) : utxo ∈ session.wallet.sorted.utxos ↔ utxo ∈ session.wallet.utxos :=
    (sorted_perm session.wallet).mem_iff
  have sortedDistinct : (session.wallet.sorted.utxos.map Utxo.outpoint).Nodup :=
    ((sorted_perm session.wallet).map Utxo.outpoint).nodup_iff.mpr distinct
  have taken : (Call.getUtxo txid vout markAsSpent confirmedOnly).takes session.wallet =
      if markAsSpent then
        (((session.wallet.sorted.candidates txid vout confirmedOnly).head?).map
          Utxo.outpoint).toList
      else [] := rfl
  rw [taken]
  cases isHead : (session.wallet.sorted.candidates txid vout confirmedOnly).head? with
  | none =>
      have left : (getUtxo txid vout markAsSpent confirmedOnly session).2 =
          { session with wallet := session.wallet.sorted } := by
        rw [getUtxo_lacks isHead]
      rw [left] at thinner ⊢
      have none : (if markAsSpent then (Option.map Utxo.outpoint none).toList else []) = [] :=
        ite_self []
      rw [none]
      exact ⟨thinner, fun utxo => by simpa using sameCoins utxo, nofun⟩
  | some coin =>
      have cached := Wallet.candidates_cached (List.mem_of_mem_head? isHead)
      have left : (getUtxo txid vout markAsSpent confirmedOnly session).2 =
          { session with wallet := if markAsSpent then { session.wallet.sorted with
            utxos := session.wallet.sorted.utxos.erase coin } else session.wallet.sorted } := by
        rw [getUtxo_first isHead]
        cases markAsSpent with
        | true => rfl
        | false => rfl
      rw [left] at thinner ⊢
      refine ⟨thinner, fun utxo => ?_, ?_⟩
      · cases markAsSpent with
        | true =>
            rw [← sameCoins]
            exact mem_erase_iff sortedDistinct cached utxo
        | false => simpa using sameCoins utxo
      · cases markAsSpent with
        | true =>
            intro outpoint member
            rw [List.mem_singleton.mp member]
            exact List.mem_map_of_mem ((sameCoins coin).mp cached)
        | false => simp

theorem getUtxos_takes (includeImmatureCoinbase markAsSpent confirmedOnly : Bool)
    (session : Session ω) :
    Takes ((Call.getUtxos includeImmatureCoinbase markAsSpent confirmedOnly).takes session.wallet)
      session (getUtxos includeImmatureCoinbase markAsSpent confirmedOnly session).2 := by
  cases markAsSpent with
  | false => exact .nothing session
  | true =>
      refine ⟨getUtxos_thins includeImmatureCoinbase true confirmedOnly session, fun utxo => ?_,
        fun _ cached => cached⟩
      constructor
      · exact fun none => absurd none List.not_mem_nil
      · exact fun ⟨cached, left⟩ => absurd (List.mem_map_of_mem cached) left

theorem picks_takes (distinct : session.wallet.outpoints.Nodup) (confirmedOnly : Bool) :
    Takes ((session.wallet.picked confirmedOnly).map Utxo.outpoint).toList session
      (getUtxo none none true confirmedOnly session).2 :=
  getUtxo_takes distinct none none true confirmedOnly

theorem createSelfTransfer_takes (distinct : session.wallet.outpoints.Nodup) (lib : Btclib)
    (options : SelfTransfer) :
    Takes (options.takes session.wallet) session (createSelfTransfer lib options session).2 := by
  unfold SelfTransfer.takes createSelfTransfer
  by_cases negative : options.feeRate < 0 ∨ options.fee < 0
  · rw [if_pos negative, if_pos negative]
    exact .nothing session
  · rw [if_neg negative, if_neg negative]
    refine Takes.bind ?_ fun _ _ => rfl
    cases options.utxoToSpend with
    | some coin => exact .nothing session
    | none => exact picks_takes distinct options.confirmedOnly

theorem createSelfTransferMulti_takes (distinct : session.wallet.outpoints.Nodup) (lib : Btclib)
    (options : SelfTransferMulti) :
    Takes (options.takes session.wallet) session
      (createSelfTransferMulti lib options session).2 := by
  unfold SelfTransferMulti.takes createSelfTransferMulti
  refine Takes.bind ?_ fun _ _ => rfl
  cases options.utxosToSpend with
  | some coins => exact .nothing session
  | none => exact (picks_takes distinct options.confirmedOnly).bind fun _ _ => rfl

theorem createSelfTransferChain_takes (distinct : session.wallet.outpoints.Nodup) (lib : Btclib)
    (chainLength : Int) (utxoToSpend : Option Utxo) :
    Takes (chainTakes chainLength utxoToSpend session.wallet) session
      (createSelfTransferChain lib chainLength utxoToSpend session).2 := by
  unfold chainTakes createSelfTransferChain
  by_cases empty : chainLength ≤ 0
  · have none : chainLength.toNat = 0 := by omega
    rw [if_pos empty, none]
    exact .nothing session
  · obtain ⟨count, length⟩ : ∃ count, chainLength.toNat = count + 1 :=
      ⟨chainLength.toNat - 1, by omega⟩
    rw [if_neg empty, length]
    cases utxoToSpend with
    | some coin =>
        rw [createChainFrom_named]
        exact .nothing session
    | none =>
        rw [createChainFrom_picks]
        exact (picks_takes distinct false).bind fun _ _ => rfl

end Session

end BitcoinNodeTests
