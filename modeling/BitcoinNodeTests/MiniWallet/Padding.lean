import BitcoinNodeTests.MiniWallet.PlainLib
import BitcoinNodeTests.MiniWallet.Spend

/-!
# Padding to a virtual size

`_pad_to_vsize` takes the width of the compact size of the octets it owes off them,
where the output has the compact size of its script's length: one more octet than those
owed, less that width.  The two widths are the same but near the bounds of a compact size.
-/

set_option autoImplicit false

namespace BitcoinNodeTests

/-- A `ValueError`, or an exception that derives from it. -/
def WalletRaised.IsValueError : WalletRaised → Prop
  | .valueError _ => True
  | .fromHex _ => True
  | .btclibValueError => True
  | _ => False

def paddingOf (count : Nat) : TxOut := ⟨0, OP_RETURN :: List.replicate count OP_1⟩

def Tx.withPadding (tx : Tx) (count : Nat) : Tx := { tx with vout := tx.vout ++ [paddingOf count] }

def Tx.bareVsize (tx : Tx) : Nat := (tx.withPadding 0).vsize

def owedFor (deficit : Nat) : Nat := deficit - (varIntSize deficit - 1)

/-- The deficits whose compact size is wider than that of the padding script's length, or
narrower. -/
def Misses (deficit : Int) : Prop :=
  deficit = 252 ∨ deficit = 253 ∨ 65536 ≤ deficit ∧ deficit ≤ 65538 ∨
    4294967296 ≤ deficit ∧ deficit ≤ 4294967302

theorem paddingOf_size (count : Nat) :
    (paddingOf count).size = 8 + varIntSize (count + 1) + (count + 1) := by
  simp only [paddingOf, TxOut.size, sizedOctets, List.length_cons, List.length_replicate]
  omega

theorem withPadding_baseSize (tx : Tx) (count : Nat) :
    (tx.withPadding count).baseSize + 1 =
      (tx.withPadding 0).baseSize + varIntSize (count + 1) + count := by
  have bare : varIntSize (0 + 1) = 1 := rfl
  have size := paddingOf_size count
  have bareSize := paddingOf_size 0
  simp only [Tx.withPadding, Tx.baseSize, List.map_append, List.map_cons, List.map_nil,
    List.sum_append, List.sum_cons, List.sum_nil, List.length_append, List.length_cons,
    List.length_nil, size, bareSize, bare]
  omega

/-- What the padding output adds to the virtual size is what it adds to the octets: its
weight is a multiple of four. -/
theorem withPadding_vsize (tx : Tx) (count : Nat) :
    (tx.withPadding count).vsize + 1 = tx.bareVsize + varIntSize (count + 1) + count := by
  have base := withPadding_baseSize tx count
  have witness : (tx.withPadding count).witnessSize = (tx.withPadding 0).witnessSize := rfl
  unfold Tx.bareVsize Tx.vsize Tx.weight
  rw [witness]
  omega

theorem varIntSize_cases (value : Nat) :
    value < 253 ∧ varIntSize value = 1 ∨ 253 ≤ value ∧ value ≤ 65535 ∧ varIntSize value = 3 ∨
      65536 ≤ value ∧ value ≤ 4294967295 ∧ varIntSize value = 5 ∨
      4294967296 ≤ value ∧ varIntSize value = 9 := by
  unfold varIntSize
  split_ifs with one three five
  · exact .inl ⟨one, rfl⟩
  · exact .inr (.inl ⟨by omega, three, rfl⟩)
  · exact .inr (.inr (.inl ⟨by omega, five, rfl⟩))
  · exact .inr (.inr (.inr ⟨by omega, rfl⟩))

/-- The octets owed and the growth of their compact size make up the deficit but where it
misses. -/
theorem owedFor_exact_iff (deficit : Nat) :
    owedFor deficit + varIntSize (owedFor deficit + 1) = deficit + 1 ↔ ¬ Misses deficit := by
  have deficitWidth := varIntSize_cases deficit
  have lengthWidth := varIntSize_cases (owedFor deficit + 1)
  unfold Misses
  unfold owedFor at lengthWidth ⊢
  omega

section Padding

variable {lib : Btclib}

/-- What `_pad_to_vsize` is to do: reach the size exactly, by one more output alone, and
refuse a size below the bare one's. -/
def PadsExactly (lib : Btclib) (tx : Tx) (targetVsize : Int) : Prop :=
  (∀ padded, padToVsize lib tx targetVsize = .ok padded →
    (∃ count, padded = tx.withPadding count) ∧ (padded.vsize : Int) = targetVsize) ∧
    (targetVsize < tx.bareVsize →
      ∃ error, padToVsize lib tx targetVsize = .error error ∧ error.IsValueError)

theorem checkedTxOut_of_valid {value : Int} {scriptPubKey : List Octet}
    (valid : lib.validTxOut ⟨value, scriptPubKey⟩ = true) :
    checkedTxOut lib value scriptPubKey = .ok ⟨value, scriptPubKey⟩ := if_pos valid

theorem padToVsize_eq (valid : ∀ count, lib.validTxOut (paddingOf count) = true) (tx : Tx)
    (targetVsize : Int) :
    padToVsize lib tx targetVsize =
      if targetVsize - tx.bareVsize < 0 then
        .error (.valueError s!"target_vsize {targetVsize} is smaller than {(tx.bareVsize : Int)}")
      else .ok (tx.withPadding (owedFor (targetVsize - tx.bareVsize).toNat)) := by
  have placeholder : checkedTxOut lib 0 [OP_RETURN] = .ok (paddingOf 0) :=
    checkedTxOut_of_valid (valid 0)
  have padding (count : Nat) :
      checkedTxOut lib 0 (OP_RETURN :: List.replicate count OP_1) = .ok (paddingOf count) :=
    checkedTxOut_of_valid (valid count)
  have bare : { tx with vout := tx.vout ++ [paddingOf 0] }.vsize = tx.bareVsize := rfl
  unfold padToVsize
  rw [placeholder]
  simp only [bind, Except.bind, bare, padding]
  rfl

/-- For every transaction and target, btclib refusing no such output: `_pad_to_vsize`
reaches the target exactly, or refuses it where it is too small, but for the deficits
that miss. -/
theorem padToVsize_exact_iff (valid : ∀ count, lib.validTxOut (paddingOf count) = true) (tx : Tx)
    (targetVsize : Int) :
    PadsExactly lib tx targetVsize ↔ ¬ Misses (targetVsize - tx.bareVsize) := by
  unfold PadsExactly
  rw [padToVsize_eq valid]
  by_cases small : targetVsize - tx.bareVsize < 0
  · have exact : ¬ Misses (targetVsize - tx.bareVsize) := by
      unfold Misses
      omega
    simp only [if_pos small, exact, not_false_eq_true, iff_true]
    exact ⟨nofun, fun _ => ⟨_, rfl, trivial⟩⟩
  · obtain ⟨deficit, isDeficit⟩ := Int.eq_ofNat_of_zero_le (Int.not_lt.mp small)
    have size := withPadding_vsize tx (owedFor deficit)
    rw [if_neg small, isDeficit, Int.toNat_natCast, ← owedFor_exact_iff]
    constructor
    · rintro ⟨reaches, -⟩
      have reached := (reaches _ rfl).2
      omega
    · intro exact
      refine ⟨?_, fun below => absurd below (by omega)⟩
      rintro _ ⟨⟩
      exact ⟨⟨_, rfl⟩, by omega⟩

end Padding

def plainTransfer : Tx where
  version := 2
  lockTime := 0
  vin := [⟨⟨List.replicate 32 1, 0⟩, [], 0, PlainLib.lib.witness⟩]
  vout := [⟨5000, PlainLib.lib.anyoneCanSpend⟩]

theorem plainTransfer_bareVsize : plainTransfer.bareVsize = 73 := by decide

theorem padToVsize_exact_iff_plainTransfer : PadsExactly PlainLib.lib plainTransfer 300 := by
  refine (padToVsize_exact_iff (fun _ => rfl) plainTransfer 300).mpr ?_
  rw [plainTransfer_bareVsize]
  unfold Misses
  omega

/-- Two octets too many: the script of 253 octets needs three for its length. -/
theorem padToVsize_overshoots : ¬ PadsExactly PlainLib.lib plainTransfer 325 := by
  rintro ⟨reaches, -⟩
  have owed : owedFor (325 - plainTransfer.bareVsize : Int).toNat = 252 := by
    rw [plainTransfer_bareVsize]
    rfl
  have padded : padToVsize PlainLib.lib plainTransfer 325 = .ok (plainTransfer.withPadding 252) := by
    rw [padToVsize_eq (fun _ => rfl), owed, plainTransfer_bareVsize]
    rfl
  have reached := (reaches _ padded).2
  have size := withPadding_vsize plainTransfer 252
  have width : varIntSize (252 + 1) = 3 := rfl
  rw [plainTransfer_bareVsize, width] at size
  omega

end BitcoinNodeTests
