import Mathlib.Algebra.Order.BigOperators.Group.List
import Mathlib.Algebra.Order.Ring.Int
import BitcoinNodeTests.MiniWallet.Built

/-!
# Equal shares

`create_self_transfer_multi` divides what its coins hold, less the fees, by the number of
outputs, and checks the quotient alone.  A count of zero is not a count to divide by, and
a negative fee leaves more in the outputs than the coins hold.
-/

set_option autoImplicit false

namespace BitcoinNodeTests

open Foundation

section Shares

variable {lib : Btclib}

def totalOf (coins : List Utxo) : Int := (coins.map Utxo.value).sum

def SelfTransferMulti.shareOf (options : SelfTransferMulti) (coins : List Utxo) : Int :=
  Int.fdiv (totalOf coins - options.feePerOutput * options.numOutputs) options.numOutputs

/-- The transaction of these coins and a share of theirs, built and padded. -/
def SelfTransferMulti.built (lib : Btclib) (options : SelfTransferMulti) (coins : List Utxo) :
    Except WalletRaised Tx := do
  let tx ← selfTransferTx lib coins (options.shareOf coins) options.numOutputs options.version
    options.locktime options.sequence
  padWhereAsked lib tx options.targetVsize

/-- `tx` spends `coins`, in their order, into `numOutputs` equal outputs to the wallet and
padding, the fee being what was asked for and the remainder of the division. -/
structure SharesOut (lib : Btclib) (coins : List Utxo) (numOutputs feePerOutput : Int) (tx : Tx) :
    Prop where
  spends : tx.spends = coins.map Utxo.outpoint
  outputs : ∃ (count : Nat) (share : Int) (padding : List TxOut),
    (count : Int) = numOutputs ∧ 0 < share ∧ IsPadding padding ∧
      tx.vout = List.replicate count ⟨share, lib.anyoneCanSpend⟩ ++ padding ∧
      numOutputs * share ≤ totalOf coins ∧
      feePerOutput * numOutputs ≤ totalOf coins - numOutputs * share ∧
      totalOf coins - numOutputs * share < feePerOutput * numOutputs + numOutputs

def SharesOrRefuses (lib : Btclib) (coins : List Utxo) (numOutputs feePerOutput : Int) :
    Except WalletRaised Tx → Prop
  | .ok tx => SharesOut lib coins numOutputs feePerOutput tx
  | .error error => error.IsValueError

theorem selfTransferMultiOf_eq (options : SelfTransferMulti) (coins : List Utxo) :
    selfTransferMultiOf lib options coins =
      if options.numOutputs = 0 then .error .zeroDivisionError
      else if options.shareOf coins ≤ 0 then
        .error (.valueError (s!"{totalOf coins} sat across {coins.length} coin(s), less " ++
          s!"{options.feePerOutput} sat fee per output, does not cover " ++
          s!"{options.numOutputs} output(s)"))
      else options.built lib coins := rfl

theorem built_ok {options : SelfTransferMulti} {coins : List Utxo} {tx : Tx}
    (run : options.built lib coins = .ok tx) :
    tx.spends = coins.map Utxo.outpoint ∧ ∃ padding, IsPadding padding ∧
      tx.vout = List.replicate options.numOutputs.toNat
        ⟨options.shareOf coins, lib.anyoneCanSpend⟩ ++ padding := by
  obtain ⟨bare, made, padded⟩ := Action.result_bind_ok run
  obtain ⟨spends, vout⟩ := selfTransferTx_ok made
  obtain ⟨padSpends, padding, isPadding, padVout⟩ := padWhereAsked_ok padded
  rw [vout] at padVout
  exact ⟨padSpends.trans spends, padding, isPadding, padVout⟩

theorem built_error {options : SelfTransferMulti} {coins : List Utxo} {error : WalletRaised}
    (run : options.built lib coins = .error error) : error.IsValueError := by
  rcases Action.result_bind_error run with refused | ⟨bare, -, refused⟩
  · exact selfTransferTx_error refused
  · exact padWhereAsked_error refused

theorem shareOf_bounds (options : SelfTransferMulti) (coins : List Utxo)
    (positive : 0 < options.numOutputs) :
    options.numOutputs * options.shareOf coins ≤
        totalOf coins - options.feePerOutput * options.numOutputs ∧
      totalOf coins - options.feePerOutput * options.numOutputs <
        options.numOutputs * options.shareOf coins + options.numOutputs := by
  have quotient := Int.fmod_add_mul_fdiv
    (totalOf coins - options.feePerOutput * options.numOutputs) options.numOutputs
  have nonneg := Int.fmod_nonneg_of_pos
    (totalOf coins - options.feePerOutput * options.numOutputs) positive
  have small := Int.fmod_lt_of_pos
    (totalOf coins - options.feePerOutput * options.numOutputs) positive
  unfold SelfTransferMulti.shareOf
  omega

/-- A share of a negative number of outputs, no fee being negative, is not positive. -/
theorem shareOf_nonpos {options : SelfTransferMulti} {coins : List Utxo}
    (holds : 0 ≤ totalOf coins) (negative : options.numOutputs < 0)
    (fee : 0 ≤ options.feePerOutput) : options.shareOf coins ≤ 0 := by
  have fees : options.feePerOutput * options.numOutputs ≤ 0 :=
    mul_nonpos_of_nonneg_of_nonpos fee negative.le
  exact Int.fdiv_nonpos_of_nonneg_of_nonpos (by omega) negative.le

theorem totalOf_nonneg {coins : List Utxo} (positive : ∀ coin ∈ coins, 0 < coin.value) :
    0 ≤ totalOf coins := by
  apply List.sum_nonneg
  intro value member
  obtain ⟨coin, among, rfl⟩ := List.mem_map.mp member
  exact (positive coin among).le

/-- A transaction built of a positive share is what it is to be where the fee is not
negative, and only there. -/
theorem built_shares_iff {options : SelfTransferMulti} {coins : List Utxo} {tx : Tx}
    (holds : 0 ≤ totalOf coins) (nonzero : options.numOutputs ≠ 0)
    (positive : 0 < options.shareOf coins) (run : options.built lib coins = .ok tx) :
    SharesOut lib coins options.numOutputs options.feePerOutput tx ↔ 0 ≤ options.feePerOutput := by
  obtain ⟨spends, padding, isPadding, vout⟩ := built_ok run
  constructor
  · rintro ⟨-, count, share, padding', sameCount, -, -, vout', within, -, -⟩
    have many : 0 < options.numOutputs := by omega
    obtain ⟨more, isMore⟩ : ∃ more, count = more + 1 := ⟨count - 1, by omega⟩
    have sameNat : options.numOutputs.toNat = more + 1 := by omega
    -- the first output tells the share
    have sameShare : options.shareOf coins = share := by
      rw [vout, isMore, sameNat, List.replicate_succ, List.replicate_succ] at vout'
      simp only [List.cons_append, List.cons.injEq, TxOut.mk.injEq] at vout'
      exact vout'.1.1
    obtain ⟨-, most⟩ := shareOf_bounds options coins many
    rw [sameShare] at most
    by_contra negative
    have fees : options.feePerOutput * options.numOutputs ≤ -1 * options.numOutputs :=
      mul_le_mul_of_nonneg_right (by omega) many.le
    omega
  · intro fee
    have many : 0 < options.numOutputs := by
      by_contra few
      have nonpos := shareOf_nonpos holds (by omega) fee
      omega
    obtain ⟨least, most⟩ := shareOf_bounds options coins many
    have fees : 0 ≤ options.feePerOutput * options.numOutputs := mul_nonneg fee many.le
    refine ⟨spends, options.numOutputs.toNat, _, padding, by omega, positive, isPadding, vout, ?_, ?_,
      ?_⟩
    · omega
    · omega
    · omega

end Shares

section Calls

variable {ω : Type}

theorem createSelfTransferMulti_named {lib : Btclib} {options : SelfTransferMulti}
    {coins : List Utxo} (named : options.utxosToSpend = some coins) (session : Session ω) :
    Session.createSelfTransferMulti lib options session =
      (selfTransferMultiOf lib options coins, session) := by
  unfold Session.createSelfTransferMulti
  rw [named]
  rfl

/-- For every list of coins of positive value and every number of outputs and fee: equal
shares or a `ValueError`, but where the number is zero, or where a negative fee leaves a
positive share that can be built. -/
theorem createSelfTransferMulti_shares_iff (lib : Btclib) (options : SelfTransferMulti)
    (coins : List Utxo) (named : options.utxosToSpend = some coins)
    (positive : ∀ coin ∈ coins, 0 < coin.value) (session : Session ω) :
    SharesOrRefuses lib coins options.numOutputs options.feePerOutput
        (Session.createSelfTransferMulti lib options session).1 ↔
      options.numOutputs ≠ 0 ∧
        (0 ≤ options.feePerOutput ∨ options.shareOf coins ≤ 0 ∨
          ∀ tx, options.built lib coins ≠ .ok tx) := by
  have holds := totalOf_nonneg positive
  rw [createSelfTransferMulti_named named, selfTransferMultiOf_eq]
  by_cases zero : options.numOutputs = 0
  · simp [zero, SharesOrRefuses, WalletRaised.IsValueError]
  · rw [if_neg zero]
    by_cases small : options.shareOf coins ≤ 0
    · rw [if_pos small]
      simp [zero, small, SharesOrRefuses, WalletRaised.IsValueError]
    · rw [if_neg small]
      rcases run : options.built lib coins with error | tx
      · have isValueError := built_error run
        simp [zero, SharesOrRefuses, isValueError]
      · have shares := built_shares_iff holds zero (by omega) run
        simp [zero, small, SharesOrRefuses, shares]

end Calls

def tenThousand : Utxo := ⟨⟨List.replicate 32 1, 0⟩, 10000, 5, true⟩

def tenThousandHeld : Session Unit := ⟨⟨[tenThousand], ∅, [], 105, 0⟩, (), [], []⟩

/-- It in `numOutputs` outputs, `feePerOutput` satoshis short of a share each. -/
def sharing (numOutputs feePerOutput : Int) : SelfTransferMulti :=
  { SelfTransferMulti.default with
    utxosToSpend := some [tenThousand], numOutputs := numOutputs, feePerOutput := feePerOutput }

theorem createSelfTransferMulti_shares_iff_thirds :
    SharesOrRefuses PlainLib.lib [tenThousand] 3 7
      (Session.createSelfTransferMulti PlainLib.lib (sharing 3 7) tenThousandHeld).1 :=
  (createSelfTransferMulti_shares_iff PlainLib.lib (sharing 3 7) [tenThousand] rfl (by decide)
    tenThousandHeld).mpr ⟨by decide, .inl (by decide)⟩

/-- No outputs are a division by zero, and one output with a fee of -1 holds more than the
coin. -/
theorem createSelfTransferMulti_divides_by_zero :
    (Session.createSelfTransferMulti PlainLib.lib (sharing 0 0) tenThousandHeld).1 =
        .error .zeroDivisionError ∧
      ¬ SharesOrRefuses PlainLib.lib [tenThousand] 0 0
        (Session.createSelfTransferMulti PlainLib.lib (sharing 0 0) tenThousandHeld).1 ∧
      ∃ tx, (Session.createSelfTransferMulti PlainLib.lib (sharing 1 (-1)) tenThousandHeld).1 =
        .ok tx ∧ tx.vout = [⟨10001, PlainLib.lib.anyoneCanSpend⟩] :=
  ⟨rfl, id, _, rfl, rfl⟩

end BitcoinNodeTests
