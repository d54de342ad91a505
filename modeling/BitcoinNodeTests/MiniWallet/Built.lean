import BitcoinNodeTests.MiniWallet.Padding

/-!
# What the makers build

For each maker, the inputs and the outputs of a transaction it returns, and that what it
raises is a `ValueError`.  `create_self_transfer_multi` alone can raise something else.
-/

set_option autoImplicit false

namespace BitcoinNodeTests

def IsPadding (padding : List TxOut) : Prop := padding = [] ∨ ∃ count, padding = [paddingOf count]

def Tx.total (tx : Tx) : Int := (tx.vout.map TxOut.value).sum

open Foundation

section Built

variable {lib : Btclib}

theorem checkedTxOut_ok {value : Int} {scriptPubKey : List Octet} {txOut : TxOut}
    (run : checkedTxOut lib value scriptPubKey = .ok txOut) : txOut = ⟨value, scriptPubKey⟩ := by
  unfold checkedTxOut at run
  split at run
  · cases run
    rfl
  · cases run

theorem checkedTxOut_error {value : Int} {scriptPubKey : List Octet} {error : WalletRaised}
    (run : checkedTxOut lib value scriptPubKey = .error error) : error.IsValueError := by
  unfold checkedTxOut at run
  split at run
  · cases run
  · cases run
    trivial

theorem zipWith_left {α β γ : Type} (view : α → γ) (xs : List α) :
    ∀ ys : List β, ys.length = xs.length → List.zipWith (fun x _ => view x) xs ys = xs.map view := by
  induction xs with
  | nil => exact fun _ _ => rfl
  | cons x rest ih =>
      intro ys same
      cases ys with
      | nil => cases same
      | cons y others =>
          rw [List.zipWith_cons_cons, ih others (Nat.succ.inj same), List.map_cons]

/-! ## `_self_transfer_tx` -/

theorem selfTransferTx_ok {utxos : List Utxo} {amount numOutputs version locktime : Int}
    {sequence : Sequence} {tx : Tx}
    (run : selfTransferTx lib utxos amount numOutputs version locktime sequence = .ok tx) :
    tx.spends = utxos.map Utxo.outpoint ∧
      tx.vout = List.replicate numOutputs.toNat ⟨amount, lib.anyoneCanSpend⟩ := by
  unfold selfTransferTx at run
  dsimp only at run
  split at run
  · cases run
  · rename_i sized
    split at run
    · cases run
      refine ⟨?_, rfl⟩
      rw [Tx.spends, List.map_zipWith]
      exact zipWith_left Utxo.outpoint utxos _ (not_not.mp sized)
    · cases run

theorem selfTransferTx_error {utxos : List Utxo} {amount numOutputs version locktime : Int}
    {sequence : Sequence} {error : WalletRaised}
    (run : selfTransferTx lib utxos amount numOutputs version locktime sequence = .error error) :
    error.IsValueError := by
  unfold selfTransferTx at run
  dsimp only at run
  split at run
  · cases run
    trivial
  · split at run
    · cases run
    · cases run
      trivial

/-! ## `_pad_to_vsize` -/

theorem padToVsize_ok {tx padded : Tx} {targetVsize : Int}
    (run : padToVsize lib tx targetVsize = .ok padded) :
    ∃ count, padded = tx.withPadding count := by
  unfold padToVsize at run
  obtain ⟨placeholder, placed, rest⟩ := Action.result_bind_ok run
  dsimp only at rest
  split at rest
  · cases rest
  · obtain ⟨padding, built, last⟩ := Action.result_bind_ok rest
    cases last
    rw [checkedTxOut_ok built]
    exact ⟨_, rfl⟩

theorem padToVsize_error {tx : Tx} {targetVsize : Int} {error : WalletRaised}
    (run : padToVsize lib tx targetVsize = .error error) : error.IsValueError := by
  unfold padToVsize at run
  rcases Action.result_bind_error run with refused | ⟨placeholder, -, rest⟩
  · exact checkedTxOut_error refused
  · dsimp only at rest
    split at rest
    · cases rest
      trivial
    · rcases Action.result_bind_error rest with refused | ⟨padding, -, last⟩
      · exact checkedTxOut_error refused
      · cases last

theorem padWhereAsked_ok {tx padded : Tx} {targetVsize : Int}
    (run : padWhereAsked lib tx targetVsize = .ok padded) :
    padded.spends = tx.spends ∧ ∃ padding, IsPadding padding ∧ padded.vout = tx.vout ++ padding := by
  unfold padWhereAsked at run
  split at run
  · obtain ⟨count, rfl⟩ := padToVsize_ok run
    exact ⟨rfl, _, .inr ⟨count, rfl⟩, rfl⟩
  · cases run
    exact ⟨rfl, [], .inl rfl, (List.append_nil _).symm⟩

theorem padWhereAsked_error {tx : Tx} {targetVsize : Int} {error : WalletRaised}
    (run : padWhereAsked lib tx targetVsize = .error error) : error.IsValueError := by
  unfold padWhereAsked at run
  split at run
  · exact padToVsize_error run
  · cases run

/-! ## The makers -/

/-- A transaction of `create_self_transfer` pays the coin's value less the fee. -/
theorem selfTransferOf_ok {options : SelfTransfer} {utxo : Utxo} {tx : Tx}
    (run : selfTransferOf lib options utxo = .ok tx) :
    tx.spends = [utxo.outpoint] ∧ ∃ paid padding, IsPadding padding ∧
      tx.vout = ⟨paid, lib.anyoneCanSpend⟩ :: padding := by
  unfold selfTransferOf at run
  obtain ⟨bare, made, rest⟩ := Action.result_bind_ok run
  obtain ⟨spends, vout⟩ := selfTransferTx_ok made
  dsimp only at rest
  split at rest
  · cases rest
  · obtain ⟨paid, checked, last⟩ := Action.result_bind_ok rest
    obtain ⟨padSpends, padding, isPadding, padVout⟩ := padWhereAsked_ok last
    rw [checkedTxOut_ok checked, vout] at padVout
    exact ⟨padSpends.trans spends, _, padding, isPadding, padVout⟩

theorem selfTransferOf_error {options : SelfTransfer} {utxo : Utxo} {error : WalletRaised}
    (run : selfTransferOf lib options utxo = .error error) : error.IsValueError := by
  unfold selfTransferOf at run
  rcases Action.result_bind_error run with refused | ⟨bare, -, rest⟩
  · exact selfTransferTx_error refused
  · dsimp only at rest
    split at rest
    · cases rest
      trivial
    · rcases Action.result_bind_error rest with refused | ⟨paid, -, last⟩
      · exact checkedTxOut_error refused
      · exact padWhereAsked_error last

theorem sendToOf_ok {scriptPubKey : List Octet} {value : Int} {utxo : Utxo} {tx : Tx}
    (run : sendToOf lib scriptPubKey value utxo = .ok tx) :
    tx.spends = [utxo.outpoint] ∧
      tx.vout = [⟨utxo.value - value - FEE, lib.anyoneCanSpend⟩, ⟨value, scriptPubKey⟩] := by
  unfold sendToOf at run
  split at run
  · cases run
  · obtain ⟨bare, made, rest⟩ := Action.result_bind_ok run
    obtain ⟨spends, vout⟩ := selfTransferTx_ok made
    obtain ⟨paid, checked, last⟩ := Action.result_bind_ok rest
    cases last
    rw [checkedTxOut_ok checked]
    exact ⟨spends, by rw [vout]; rfl⟩

end Built

end BitcoinNodeTests
