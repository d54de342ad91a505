import Mathlib.Order.Bounds.Basic
import BitcoinNodeTests.MiniWallet.Refused

/-!
# The fee of a self transfer

`create_self_transfer` prices its fee before it pads: at the size it is asked for, where the
padding may miss it by a few octets.  `drift` is by how many, so that the fee is the rate's at
the size of the transaction returned exactly where the drift does not change it.
-/

set_option autoImplicit false

namespace BitcoinNodeTests

open Foundation

/-! ## Rounding up -/

def feeAt (feeRate size : Int) : Int := -Int.fdiv (-feeRate * size) 1000

theorem feeAt_isLeast (feeRate size : Int) :
    IsLeast {fee : Int | feeRate * size ≤ 1000 * fee} (feeAt feeRate size) := by
  have bounds : feeRate * size ≤ 1000 * feeAt feeRate size ∧
      1000 * feeAt feeRate size < feeRate * size + 1000 := by
    unfold feeAt
    rw [Int.neg_mul, Int.fdiv_eq_ediv_of_nonneg _ (by omega)]
    omega
  refine ⟨bounds.1, fun fee covers => ?_⟩
  have enough : feeRate * size ≤ 1000 * fee := covers
  omega

/-! ## By how much the padding misses -/

/-- How many octets a transaction padded for a deficit is over the size asked for. -/
def drift (deficit : Int) : Int :=
  if deficit = 252 then 2
  else if deficit = 253 ∨ 65536 ≤ deficit ∧ deficit ≤ 65538 then -2
  else if 4294967296 ≤ deficit ∧ deficit ≤ 4294967302 then -4
  else 0

theorem owedFor_drift (deficit : Nat) :
    (owedFor deficit + varIntSize (owedFor deficit + 1) : Int) = deficit + 1 + drift deficit := by
  have deficitWidth := varIntSize_cases deficit
  have lengthWidth := varIntSize_cases (owedFor deficit + 1)
  unfold drift
  unfold owedFor at lengthWidth ⊢
  split_ifs <;> omega

theorem withPadding_drift (tx : Tx) {deficit : Int} (reachable : 0 ≤ deficit) :
    ((tx.withPadding (owedFor deficit.toNat)).vsize : Int) =
      tx.bareVsize + deficit + drift deficit := by
  obtain ⟨count, rfl⟩ := Int.eq_ofNat_of_zero_le reachable
  have size := withPadding_vsize tx (owedFor count)
  have drifts := owedFor_drift count
  rw [Int.toNat_natCast]
  omega

/-! ## The fee of what is returned -/

/-- One output pays the wallet, and one pads the transaction where a size is asked for. -/
def PaysWallet (lib : Btclib) (options : SelfTransfer) (tx : Tx) : Prop :=
  ∃ padding, tx.vout = ⟨tx.total, lib.anyoneCanSpend⟩ :: padding ∧ 0 < tx.total ∧
    if options.targetVsize = 0 then padding = [] else ∃ count, padding = [paddingOf count]

/-- The fee is the one asked for, or the least that the rate has at the size of the transaction
itself, and the rest of the coin goes to the wallet in one output. -/
structure PricedBy (lib : Btclib) (options : SelfTransfer) (coin : Utxo) (tx : Tx) : Prop where
  fee : options.fee ≠ 0 → coin.value - tx.total = options.fee
  rate : options.fee = 0 →
    IsLeast {fee : Int | options.feeRate * tx.vsize ≤ 1000 * fee} (coin.value - tx.total)
  paid : PaysWallet lib options tx

/-- The fee is a rate's at a size asked for that the padding misses by enough to change it,
and nothing refuses the transaction. -/
structure Misprices (lib : Btclib) (options : SelfTransfer) (coin : Utxo) : Prop where
  rated : options.fee = 0
  sized : options.targetVsize ≠ 0
  changes : feeAt options.feeRate (options.targetVsize +
      drift (options.targetVsize - (options.priced lib coin).bareVsize)) ≠
    feeAt options.feeRate options.targetVsize
  fits : options.Fits lib coin

section Priced

variable {lib : Btclib} {options : SelfTransfer} {coin : Utxo} {tx : Tx}

/-- What the transfer pays changes neither its size nor what padding costs it. -/
theorem unpadded_sizes : (options.unpadded lib coin).vsize = (options.priced lib coin).vsize ∧
    (options.unpadded lib coin).bareVsize = (options.priced lib coin).bareVsize := ⟨rfl, rfl⟩

theorem selfTransferOf_vsize (run : selfTransferOf lib options coin = .ok tx) :
    (tx.vsize : Int) = if options.targetVsize = 0 then ((options.priced lib coin).vsize : Int)
      else options.targetVsize +
        drift (options.targetVsize - (options.priced lib coin).bareVsize) := by
  have fits := returns_selfTransferOf_iff.mp ⟨tx, run⟩
  rw [selfTransferOf_returns run]
  by_cases sized : options.targetVsize = 0
  · rw [if_pos sized, if_pos sized, unpadded_sizes.1]
  · have enough : (options.priced lib coin).bareVsize ≤ options.targetVsize := (fits.pads sized).2.1
    rw [if_neg sized, if_neg sized, withPadding_drift _ (by omega), unpadded_sizes.2]
    omega

theorem selfTransferOf_pays (run : selfTransferOf lib options coin = .ok tx) :
    coin.value - tx.total = options.feeOf (options.priced lib coin) ∧
      PaysWallet lib options tx := by
  have covers := (returns_selfTransferOf_iff.mp ⟨tx, run⟩).covers
  have total : tx.total = coin.value - options.feeOf (options.priced lib coin) := by
    rw [selfTransferOf_returns run]
    split
    · simp [Tx.total, SelfTransfer.unpadded, SelfTransfer.paid]
    · simp [Tx.total, Tx.withPadding, SelfTransfer.unpadded, SelfTransfer.paid, paddingOf]
  have outputs := congrArg Tx.vout (selfTransferOf_returns run)
  refine ⟨by omega, ?_⟩
  unfold PaysWallet
  rw [outputs, total]
  by_cases sized : options.targetVsize = 0
  · simp only [if_pos sized]
    exact ⟨[], rfl, by omega, rfl⟩
  · simp only [if_neg sized]
    exact ⟨_, rfl, by omega, _, rfl⟩

/-- What is returned is priced right where the rate has the same fee at the size asked for and
at the size reached. -/
theorem selfTransferOf_priced_iff (run : selfTransferOf lib options coin = .ok tx) :
    PricedBy lib options coin tx ↔ ¬ Misprices lib options coin := by
  obtain ⟨pays, paid⟩ := selfTransferOf_pays run
  have size := selfTransferOf_vsize run
  constructor
  · intro priced misprices
    have least := priced.rate misprices.rated
    rw [if_neg misprices.sized] at size
    rw [pays, size, SelfTransfer.feeOf, if_neg (not_not.mpr misprices.rated),
      SelfTransfer.pricedSize, if_pos misprices.sized] at least
    exact misprices.changes ((feeAt_isLeast _ _).unique least)
  · intro right
    refine ⟨fun asked => ?_, fun rated => ?_, paid⟩
    · rw [pays, SelfTransfer.feeOf, if_pos asked]
    · rw [pays, size, SelfTransfer.feeOf, if_neg (not_not.mpr rated), SelfTransfer.pricedSize]
      by_cases sized : options.targetVsize = 0
      · rw [if_pos sized, if_neg (not_not.mpr sized)]
        exact feeAt_isLeast _ _
      · have same := not_not.mp fun changes =>
          right ⟨rated, sized, changes, returns_selfTransferOf_iff.mp ⟨tx, run⟩⟩
        rw [if_neg sized, if_pos sized]
        show IsLeast _ (feeAt options.feeRate options.targetVsize)
        rw [← same]
        exact feeAt_isLeast _ _

end Priced

namespace Session

variable {ω : Type} {lib : Btclib} {options : SelfTransfer} {coin : Utxo}

/-- What `create_self_transfer` is to do of the coin it has: price what it returns, and refuse
a fee that the coin does not exceed. -/
def Prices (lib : Btclib) (options : SelfTransfer) (coin : Utxo) (session : Session ω) : Prop :=
  (∀ tx reached, createSelfTransfer lib options session = (.ok tx, reached) →
    PricedBy lib options coin tx) ∧
  (coin.value ≤ options.feeOf (options.priced lib coin) →
    ∃ error reached, createSelfTransfer lib options session = (.error error, reached) ∧
      error.IsValueError)

theorem createSelfTransfer_of_coin {session middle : Session ω} (feeRate : 0 ≤ options.feeRate)
    (fee : 0 ≤ options.fee)
    (spends : pickCoin options.confirmedOnly options.utxoToSpend session = (.ok coin, middle)) :
    createSelfTransfer lib options session = (selfTransferOf lib options coin, middle) := by
  rw [createSelfTransfer, if_neg (by omega), Action.bind_of_ok _ spends]
  rfl

theorem createSelfTransfer_prices_iff {session middle : Session ω} (feeRate : 0 ≤ options.feeRate)
    (fee : 0 ≤ options.fee)
    (spends : pickCoin options.confirmedOnly options.utxoToSpend session = (.ok coin, middle)) :
    Prices lib options coin session ↔ ¬ Misprices lib options coin := by
  unfold Prices
  rw [createSelfTransfer_of_coin feeRate fee spends]
  constructor
  · rintro ⟨priced, -⟩ misprices
    obtain ⟨tx, run⟩ := returns_selfTransferOf_iff.mpr misprices.fits
    exact (selfTransferOf_priced_iff run).mp (priced tx middle (by rw [run])) misprices
  · intro right
    refine ⟨fun tx reached run => ?_, fun uncovered => ?_⟩
    · exact (selfTransferOf_priced_iff (congrArg Prod.fst run)).mpr right
    · rcases made : selfTransferOf lib options coin with error | tx
      · exact ⟨error, middle, rfl, selfTransferOf_error made⟩
      · have covers := (returns_selfTransferOf_iff.mp ⟨tx, made⟩).covers
        omega

def pricedCoin : Utxo := ⟨⟨List.replicate 32 1, 0⟩, 5000000000, 1, true⟩

def atSize (targetVsize : Int) : SelfTransfer :=
  { SelfTransfer.default with
    feeRate := 1000, targetVsize := targetVsize, utxoToSpend := some pricedCoin }

def emptyHanded : Session Unit := ⟨⟨[], ∅, [], 0, 0⟩, (), [], []⟩

theorem createSelfTransfer_prices_iff_atSize :
    Prices PlainLib.lib (atSize 300) pricedCoin emptyHanded ↔
      ¬ Misprices PlainLib.lib (atSize 300) pricedCoin :=
  createSelfTransfer_prices_iff (by decide) (by decide) rfl

/-- At 325 octets the padding is two octets too many, and the fee is two satoshis short. -/
theorem createSelfTransfer_underpays :
    (∃ tx reached, createSelfTransfer PlainLib.lib (atSize 325) emptyHanded = (.ok tx, reached) ∧
      tx.vsize = 327 ∧ pricedCoin.value - tx.total = 325) ∧
    ¬ Prices PlainLib.lib (atSize 325) pricedCoin emptyHanded := by
  have made : selfTransferOf PlainLib.lib (atSize 325) pricedCoin =
      .ok (((atSize 325).unpadded PlainLib.lib pricedCoin).withPadding 252) := rfl
  have run : createSelfTransfer PlainLib.lib (atSize 325) emptyHanded = (.ok _, emptyHanded) :=
    (createSelfTransfer_of_coin (by decide) (by decide) rfl).trans (by rw [made])
  have size := selfTransferOf_vsize made
  have total := (selfTransferOf_pays made).1
  have bare : ((atSize 325).priced PlainLib.lib pricedCoin).bareVsize = 73 := by decide
  rw [bare] at size
  have isSize : (((atSize 325).unpadded PlainLib.lib pricedCoin).withPadding 252).vsize = 327 :=
    Int.ofNat_inj.mp (size.trans (by decide))
  have fee : (atSize 325).feeOf ((atSize 325).priced PlainLib.lib pricedCoin) = 325 := by decide
  rw [fee] at total
  refine ⟨⟨_, _, run, isSize, total⟩, fun ⟨priced, _⟩ => ?_⟩
  have covers := ((priced _ _ run).rate rfl).1
  rw [isSize, total] at covers
  exact absurd covers (by decide)

end Session

end BitcoinNodeTests
