import BitcoinNodeTests.MiniWallet.Shares
import BitcoinNodeTests.MiniWallet.Preferred

/-!
# What a refused build leaves

The makers take their coin out of the cache first and check afterwards, so that a coin
`get_utxo` picked is gone where a check refuses.  A coin its caller named was never taken.
-/

set_option autoImplicit false

namespace BitcoinNodeTests

open Foundation

/-! ## What is made of a coin -/

def chainOf (lib : Btclib) : Nat → Utxo → Except WalletRaised (List Tx)
  | 0, _ => .ok []
  | count + 1, coin => do
      let tx ← selfTransferOf lib .default coin
      match (Wallet.newUtxos lib tx).head? with
      | none => .error .indexError
      | some next => do
          let rest ← chainOf lib count next
          .ok (tx :: rest)

def preparedOf (lib : Btclib) (scriptPubKey : List Octet) (value : Int) (coin : Utxo) :
    Except WalletRaised (Tx × List Octet) := do
  let tx ← sendToOf lib scriptPubKey value coin
  match lib.serialize tx with
  | none => .error .btclibValueError
  | some octets => .ok (tx, octets)

/-! ## What the checks ask for -/

/-- `sequence` gives each of `count` coins one. -/
def Sequence.Fits (sequence : Sequence) (count : Nat) : Prop :=
  (sequence.forCoins count).length = count

def uncheckedTx (lib : Btclib) (utxos : List Utxo)
    (amountPerOutput numOutputs version locktime : Int) (sequence : Sequence) : Tx where
  version := version
  lockTime := locktime
  vin := List.zipWith
    (fun utxo utxoSequence => (⟨utxo.outpoint, [], utxoSequence, lib.witness⟩ : TxIn))
    utxos (sequence.forCoins utxos.length)
  vout := List.replicate numOutputs.toNat ⟨amountPerOutput, lib.anyoneCanSpend⟩

/-- btclib refuses no input, no output and not the whole. -/
def Btclib.Takes (lib : Btclib) (tx : Tx) : Prop :=
  tx.vin.all lib.validTxIn && tx.vout.all lib.validTxOut && lib.validTx tx

/-- The target, where there is one, leaves room for an `OP_RETURN` output, and btclib
refuses neither the bare one nor the one padded. -/
def PadFits (lib : Btclib) (tx : Tx) (targetVsize : Int) : Prop :=
  targetVsize ≠ 0 → lib.validTxOut (paddingOf 0) ∧ tx.bareVsize ≤ targetVsize ∧
    lib.validTxOut (paddingOf (owedFor (targetVsize - tx.bareVsize).toNat))

def SelfTransfer.priced (lib : Btclib) (options : SelfTransfer) (coin : Utxo) : Tx :=
  uncheckedTx lib [coin] 0 1 options.version options.locktime options.sequence

def SelfTransfer.paid (lib : Btclib) (options : SelfTransfer) (coin : Utxo) : TxOut :=
  ⟨coin.value - options.feeOf (options.priced lib coin), lib.anyoneCanSpend⟩

def SelfTransfer.unpadded (lib : Btclib) (options : SelfTransfer) (coin : Utxo) : Tx :=
  { options.priced lib coin with vout := [options.paid lib coin] }

/-- The coin is more than the fee, there is one sequence, and btclib and the target refuse
nothing. -/
structure SelfTransfer.Fits (lib : Btclib) (options : SelfTransfer) (coin : Utxo) : Prop where
  sequence : options.sequence.Fits 1
  takes : lib.Takes (options.priced lib coin)
  covers : options.feeOf (options.priced lib coin) < coin.value
  output : lib.validTxOut (options.paid lib coin)
  pads : PadFits lib (options.unpadded lib coin) options.targetVsize

def SelfTransferMulti.unchecked (lib : Btclib) (options : SelfTransferMulti) (coins : List Utxo) :
    Tx :=
  uncheckedTx lib coins (options.shareOf coins) options.numOutputs options.version
    options.locktime options.sequence

/-- There is a positive share per output and a sequence per coin, and btclib and the target
refuse nothing. -/
structure SelfTransferMulti.Fits (lib : Btclib) (options : SelfTransferMulti)
    (coins : List Utxo) : Prop where
  divides : options.numOutputs ≠ 0
  share : 0 < options.shareOf coins
  sequence : options.sequence.Fits coins.length
  takes : lib.Takes (options.unchecked lib coins)
  pads : PadFits lib (options.unchecked lib coins) options.targetVsize

def linked (lib : Btclib) (coin : Utxo) : Utxo :=
  ⟨⟨lib.txId (SelfTransfer.default.unpadded lib coin), 0⟩,
    (SelfTransfer.default.paid lib coin).value, 0, false⟩

/-- A self-transfer fits this coin, and the coin of each link up to `count`. -/
def ChainFits (lib : Btclib) : Nat → Utxo → Prop
  | 0, _ => True
  | count + 1, coin => SelfTransfer.default.Fits lib coin ∧ ChainFits lib count (linked lib coin)

def changeOf (lib : Btclib) (value : Int) (coin : Utxo) : Tx :=
  uncheckedTx lib [coin] (coin.value - value - FEE) 1 2 0 (.same 0)

def sendingOf (lib : Btclib) (scriptPubKey : List Octet) (value : Int) (coin : Utxo) : Tx :=
  { changeOf lib value coin with
    vout := (changeOf lib value coin).vout ++ [⟨value, scriptPubKey⟩] }

structure SendFits (lib : Btclib) (scriptPubKey : List Octet) (value : Int) (coin : Utxo) :
    Prop where
  covers : value + FEE ≤ coin.value
  takes : lib.Takes (changeOf lib value coin)
  output : lib.validTxOut ⟨value, scriptPubKey⟩
  serializes : (lib.serialize (sendingOf lib scriptPubKey value coin)).isSome

section Fits

variable {lib : Btclib}

theorem selfTransferTx_ok_iff {utxos : List Utxo} {amount numOutputs version locktime : Int}
    {sequence : Sequence} {tx : Tx} :
    selfTransferTx lib utxos amount numOutputs version locktime sequence = .ok tx ↔
      sequence.Fits utxos.length ∧
        lib.Takes (uncheckedTx lib utxos amount numOutputs version locktime sequence) ∧
        uncheckedTx lib utxos amount numOutputs version locktime sequence = tx := by
  unfold selfTransferTx Sequence.Fits Btclib.Takes
  dsimp only
  split
  · rename_i misfit
    simp only [misfit, false_and, reduceCtorEq]
  · rename_i fits
    split
    · rename_i taken
      simp only [not_not.mp fits, true_and, Except.ok.injEq]
      exact ⟨fun same => ⟨taken, same⟩, And.right⟩
    · rename_i refused
      simp only [reduceCtorEq, false_iff]
      exact fun ⟨_, taken, _⟩ => refused taken

theorem checkedTxOut_ok_iff {value : Int} {scriptPubKey : List Octet} {txOut : TxOut} :
    checkedTxOut lib value scriptPubKey = .ok txOut ↔
      lib.validTxOut ⟨value, scriptPubKey⟩ ∧ ⟨value, scriptPubKey⟩ = txOut := by
  unfold checkedTxOut
  split
  · rename_i valid
    simp only [valid, true_and, Except.ok.injEq]
  · rename_i invalid
    simp only [invalid, false_and, reduceCtorEq]

theorem returns_bind_iff {α β : Type} {first : Except WalletRaised α}
    {next : α → Except WalletRaised β} :
    (∃ result, (first >>= next) = .ok result) ↔
      ∃ value, first = .ok value ∧ ∃ result, next value = .ok result := by
  constructor
  · rintro ⟨result, run⟩
    obtain ⟨value, made, rest⟩ := Action.result_bind_ok run
    exact ⟨value, made, result, rest⟩
  · rintro ⟨value, rfl, result, rest⟩
    exact ⟨result, rest⟩

theorem returns_checkedTxOut_iff {α : Type} {value : Int} {scriptPubKey : List Octet}
    {next : TxOut → Except WalletRaised α} :
    (∃ result, (checkedTxOut lib value scriptPubKey >>= next) = .ok result) ↔
      lib.validTxOut ⟨value, scriptPubKey⟩ ∧ ∃ result, next ⟨value, scriptPubKey⟩ = .ok result := by
  rw [returns_bind_iff]
  unfold checkedTxOut
  split
  · rename_i valid
    simp [valid]
  · rename_i invalid
    simp [invalid]

theorem returns_selfTransferTx_iff {α : Type} {utxos : List Utxo}
    {amount numOutputs version locktime : Int} {sequence : Sequence}
    {next : Tx → Except WalletRaised α} :
    (∃ result, (selfTransferTx lib utxos amount numOutputs version locktime sequence >>= next) =
        .ok result) ↔
      sequence.Fits utxos.length ∧
        lib.Takes (uncheckedTx lib utxos amount numOutputs version locktime sequence) ∧
        ∃ result, next (uncheckedTx lib utxos amount numOutputs version locktime sequence) =
          .ok result := by
  rw [returns_bind_iff]
  simp only [selfTransferTx_ok_iff]
  constructor
  · rintro ⟨_, ⟨fits, takes, rfl⟩, result, rest⟩
    exact ⟨fits, takes, result, rest⟩
  · rintro ⟨fits, takes, rest⟩
    exact ⟨_, ⟨fits, takes, rfl⟩, rest⟩

theorem returns_padWhereAsked_iff {tx : Tx} {targetVsize : Int} :
    (∃ padded, padWhereAsked lib tx targetVsize = .ok padded) ↔ PadFits lib tx targetVsize := by
  unfold padWhereAsked PadFits
  by_cases asked : targetVsize ≠ 0
  · have placeholder : { tx with vout := tx.vout ++ [(⟨0, [OP_RETURN]⟩ : TxOut)] }.vsize =
        tx.bareVsize := rfl
    rw [if_pos asked, padToVsize]
    simp only [asked, true_implies, ne_eq, not_false_eq_true]
    rw [returns_checkedTxOut_iff]
    refine and_congr Iff.rfl ?_
    rw [placeholder]
    by_cases small : targetVsize - tx.bareVsize < 0
    · simp only [if_pos small, reduceCtorEq, exists_false, false_iff]
      omega
    · have large : (tx.bareVsize : Int) ≤ targetVsize := by omega
      rw [if_neg small, returns_checkedTxOut_iff]
      simp only [large, true_and, Except.ok.injEq, exists_eq', and_true]
      rfl
  · rw [if_neg asked]
    exact ⟨fun _ impossible => absurd impossible asked, fun _ => ⟨tx, rfl⟩⟩

theorem returns_selfTransferOf_iff {options : SelfTransfer} {coin : Utxo} :
    (∃ tx, selfTransferOf lib options coin = .ok tx) ↔ options.Fits lib coin := by
  have priced : uncheckedTx lib [coin] 0 1 options.version options.locktime options.sequence =
      options.priced lib coin := rfl
  unfold selfTransferOf
  rw [returns_selfTransferTx_iff, priced]
  dsimp only
  constructor
  · rintro ⟨sequence, takes, result, rest⟩
    split at rest
    · cases rest
    · rename_i covers
      obtain ⟨output, pads⟩ := returns_checkedTxOut_iff.mp ⟨result, rest⟩
      exact ⟨sequence, takes, not_le.mp covers, output, returns_padWhereAsked_iff.mp pads⟩
  · intro fits
    refine ⟨fits.sequence, fits.takes, ?_⟩
    rw [if_neg (not_le.mpr fits.covers)]
    exact returns_checkedTxOut_iff.mpr ⟨fits.output, returns_padWhereAsked_iff.mpr fits.pads⟩

theorem returns_selfTransferMultiOf_iff {options : SelfTransferMulti} {coins : List Utxo} :
    (∃ tx, selfTransferMultiOf lib options coins = .ok tx) ↔ options.Fits lib coins := by
  rw [selfTransferMultiOf_eq]
  constructor
  · rintro ⟨result, run⟩
    split at run
    · cases run
    split at run
    · cases run
    rename_i divides small
    obtain ⟨sequence, takes, pads⟩ := returns_selfTransferTx_iff.mp ⟨result, run⟩
    exact ⟨divides, not_le.mp small, sequence, takes, returns_padWhereAsked_iff.mp pads⟩
  · intro fits
    rw [if_neg fits.divides, if_neg (not_le.mpr fits.share)]
    exact returns_selfTransferTx_iff.mpr
      ⟨fits.sequence, fits.takes, returns_padWhereAsked_iff.mpr fits.pads⟩

theorem padWhereAsked_returns {unpadded tx : Tx} {targetVsize : Int}
    (run : padWhereAsked lib unpadded targetVsize = .ok tx) :
    tx = if targetVsize = 0 then unpadded
      else unpadded.withPadding (owedFor (targetVsize - unpadded.bareVsize).toNat) := by
  unfold padWhereAsked at run
  by_cases sized : targetVsize = 0
  · rw [if_neg (not_not.mpr sized)] at run
    rw [if_pos sized]
    exact (Except.ok.inj run).symm
  · rw [if_pos sized] at run
    rw [if_neg sized]
    unfold padToVsize at run
    obtain ⟨placeholder, placed, rest⟩ := Action.result_bind_ok run
    obtain ⟨-, rfl⟩ := checkedTxOut_ok_iff.mp placed
    dsimp only at rest
    split at rest
    · cases rest
    · obtain ⟨padding, checked, last⟩ := Action.result_bind_ok rest
      obtain ⟨-, rfl⟩ := checkedTxOut_ok_iff.mp checked
      exact (Except.ok.inj last).symm

/-- The transaction of `create_self_transfer`, padded where a size is asked for. -/
theorem selfTransferOf_returns {options : SelfTransfer} {coin : Utxo} {tx : Tx}
    (run : selfTransferOf lib options coin = .ok tx) :
    tx = if options.targetVsize = 0 then options.unpadded lib coin
      else (options.unpadded lib coin).withPadding
        (owedFor (options.targetVsize - (options.priced lib coin).bareVsize).toNat) := by
  unfold selfTransferOf at run
  obtain ⟨bare, made, rest⟩ := Action.result_bind_ok run
  obtain ⟨-, -, rfl⟩ := selfTransferTx_ok_iff.mp made
  dsimp only at rest
  split at rest
  · cases rest
  · obtain ⟨paid, checked, last⟩ := Action.result_bind_ok rest
    obtain ⟨-, rfl⟩ := checkedTxOut_ok_iff.mp checked
    exact padWhereAsked_returns last

theorem newUtxos_head {tx : Tx} {value : Int} {rest : List TxOut}
    (pays : tx.vout = ⟨value, lib.anyoneCanSpend⟩ :: rest) :
    (Wallet.newUtxos lib tx).head? = some ⟨⟨lib.txId tx, 0⟩, value, 0, false⟩ := by
  rw [Wallet.newUtxos, pays, List.zipIdx_cons, List.filterMap_cons]
  dsimp only
  rw [if_pos rfl]
  rfl

theorem selfTransferOf_default {coin : Utxo} {tx : Tx}
    (made : selfTransferOf lib .default coin = .ok tx) :
    (Wallet.newUtxos lib tx).head? = some (linked lib coin) := by
  have isUnpadded : tx = SelfTransfer.default.unpadded lib coin := selfTransferOf_returns made
  have pays : tx.vout = SelfTransfer.default.paid lib coin :: [] := by rw [isUnpadded]; rfl
  rw [newUtxos_head pays, isUnpadded]
  rfl

theorem returns_chainOf_iff {count : Nat} {coin : Utxo} :
    (∃ links, chainOf lib count coin = .ok links) ↔ ChainFits lib count coin := by
  induction count generalizing coin with
  | zero => exact ⟨fun _ => trivial, fun _ => ⟨[], rfl⟩⟩
  | succ count ih =>
      unfold chainOf ChainFits
      rw [returns_bind_iff, ← returns_selfTransferOf_iff, ← ih]
      constructor
      · rintro ⟨tx, made, links, rest⟩
        rw [selfTransferOf_default made] at rest
        obtain ⟨later, linked, -⟩ := Action.result_bind_ok rest
        exact ⟨⟨tx, made⟩, later, linked⟩
      · rintro ⟨⟨tx, made⟩, later, linked⟩
        refine ⟨tx, made, tx :: later, ?_⟩
        rw [selfTransferOf_default made]
        dsimp only
        rw [linked]
        rfl

theorem sendToOf_ok_iff {scriptPubKey : List Octet} {value : Int} {coin : Utxo} {tx : Tx} :
    sendToOf lib scriptPubKey value coin = .ok tx ↔
      value + FEE ≤ coin.value ∧ lib.Takes (changeOf lib value coin) ∧
        lib.validTxOut ⟨value, scriptPubKey⟩ ∧ sendingOf lib scriptPubKey value coin = tx := by
  unfold sendToOf
  constructor
  · intro made
    split at made
    · cases made
    · rename_i covers
      obtain ⟨bare, built, checks⟩ := Action.result_bind_ok made
      obtain ⟨-, takes, rfl⟩ := selfTransferTx_ok_iff.mp built
      obtain ⟨paid, checked, last⟩ := Action.result_bind_ok checks
      obtain ⟨output, rfl⟩ := checkedTxOut_ok_iff.mp checked
      cases last
      exact ⟨not_lt.mp covers, takes, output, rfl⟩
  · rintro ⟨covers, takes, output, rfl⟩
    have built : selfTransferTx lib [coin] (coin.value - value - FEE) 1 2 0 (.same 0) =
        .ok (changeOf lib value coin) := selfTransferTx_ok_iff.mpr ⟨rfl, takes, rfl⟩
    rw [if_neg (not_lt.mpr covers), built, checkedTxOut_ok_iff.mpr ⟨output, rfl⟩]
    rfl

theorem returns_preparedOf_iff {scriptPubKey : List Octet} {value : Int} {coin : Utxo} :
    (∃ prepared, preparedOf lib scriptPubKey value coin = .ok prepared) ↔
      SendFits lib scriptPubKey value coin := by
  unfold preparedOf
  rw [returns_bind_iff]
  constructor
  · rintro ⟨tx, made, prepared, rest⟩
    obtain ⟨covers, takes, output, rfl⟩ := sendToOf_ok_iff.mp made
    refine ⟨covers, takes, output, ?_⟩
    split at rest
    · cases rest
    · rename_i octets serialized
      exact Option.isSome_iff_exists.mpr ⟨octets, serialized⟩
  · intro fits
    obtain ⟨octets, serialized⟩ := Option.isSome_iff_exists.mp fits.serializes
    refine ⟨_, sendToOf_ok_iff.mpr ⟨fits.covers, fits.takes, fits.output, rfl⟩,
      (sendingOf lib scriptPubKey value coin, octets), ?_⟩
    rw [serialized]

end Fits

/-! ## What a call that builds leaves -/

def Wallet.picked (confirmedOnly : Bool) (wallet : Wallet) : Option Utxo :=
  (wallet.sorted.candidates none none confirmedOnly).head?

/-- A call that builds transactions. -/
inductive Build where
  | selfTransfer (options : SelfTransfer)
  | selfTransferMulti (options : SelfTransferMulti)
  | chain (chainLength : Int) (utxoToSpend : Option Utxo)
  | sendTo (scriptPubKey : List Octet) (value : Int)

namespace Session

variable {ω : Type}

def prepareSendTo (lib : Btclib) (scriptPubKey : List Octet) (value : Int) :
    Action (Session ω) WalletRaised (Tx × List Octet) := do
  let utxo ← getUtxo none none true false
  let tx ← orThrow (sendToOf lib scriptPubKey value utxo)
  let octets ← orRaise .btclibValueError (lib.serialize tx)
  pure (tx, octets)

def broadcast (lib : Btclib) (env : Environment ω) (tx : Tx) (octets : List Octet) :
    Action (Session ω) WalletRaised Tx := do
  let answer ← onWorld (rpcCall env "sendrawtransaction" [.str (hex octets), .int 0])
  expectId lib tx answer
  onWallet (Wallet.scanTx lib tx)
  pure tx

def Keeps {α : Type} (action : Action (Session ω) WalletRaised α) (session : Session ω) : Prop :=
  ∀ error reached, action session = (.error error, reached) →
    reached.wallet.utxos.Perm session.wallet.utxos

/-- Where the call raises, before any broadcast, the wallet holds the coins it held. -/
def KeepsCoins (lib : Btclib) (build : Build) (session : Session ω) : Prop :=
  match build with
  | .selfTransfer options => Keeps (createSelfTransfer lib options) session
  | .selfTransferMulti options => Keeps (createSelfTransferMulti lib options) session
  | .chain chainLength utxoToSpend =>
      Keeps (createSelfTransferChain lib chainLength utxoToSpend) session
  | .sendTo scriptPubKey value => Keeps (prepareSendTo lib scriptPubKey value) session

end Session

/-- Where the call picks a coin itself, that coin passes every check. -/
def Build.Sure (lib : Btclib) (wallet : Wallet) : Build → Prop
  | .selfTransfer options =>
      ¬ (options.feeRate < 0 ∨ options.fee < 0) → options.utxoToSpend = none →
        ∀ coin, wallet.picked options.confirmedOnly = some coin → options.Fits lib coin
  | .selfTransferMulti options =>
      options.utxosToSpend = none →
        ∀ coin, wallet.picked options.confirmedOnly = some coin → options.Fits lib [coin]
  | .chain chainLength utxoToSpend =>
      0 < chainLength → utxoToSpend = none →
        ∀ coin, wallet.picked false = some coin → ChainFits lib chainLength.toNat coin
  | .sendTo scriptPubKey value =>
      ∀ coin, wallet.picked false = some coin → SendFits lib scriptPubKey value coin

namespace Session

section Refused

variable {ω α : Type} {lib : Btclib} {session : Session ω} {confirmedOnly : Bool}

theorem picked_cached {coin : Utxo} (isPicked : session.wallet.picked confirmedOnly = some coin) :
    coin ∈ session.wallet.sorted.utxos :=
  Wallet.candidates_cached (List.mem_of_mem_head? isPicked)

theorem getUtxo_picks {coin : Utxo} (isPicked : session.wallet.picked confirmedOnly = some coin) :
    getUtxo none none true confirmedOnly session =
      (.ok coin, { session with wallet := { session.wallet.sorted with
        utxos := session.wallet.sorted.utxos.erase coin } }) :=
  getUtxo_first isPicked

theorem getUtxo_finds_none (nothing : session.wallet.picked confirmedOnly = none) :
    getUtxo none none true confirmedOnly session =
      (.error (.lookupError (Wallet.noCandidate none none confirmedOnly)),
        { session with wallet := session.wallet.sorted }) :=
  getUtxo_lacks nothing

theorem erase_not_perm {coin : Utxo} (isPicked : session.wallet.picked confirmedOnly = some coin) :
    ¬ (session.wallet.sorted.utxos.erase coin).Perm session.wallet.utxos := by
  intro same
  have shorter := List.length_erase_of_mem (picked_cached isPicked)
  have lengths := same.length_eq
  have sorted := (sorted_perm session.wallet).length_eq
  have some := List.length_pos_of_mem (picked_cached isPicked)
  omega

/-- A coin picked and then built of is kept where nothing refuses it, and only there. -/
theorem picked_keeps_iff (make : Utxo → Except WalletRaised α) :
    Keeps (getUtxo none none true confirmedOnly >>= fun coin => orThrow (make coin)) session ↔
      ∀ coin, session.wallet.picked confirmedOnly = some coin →
        ∃ value, make coin = .ok value := by
  unfold Keeps
  cases isPicked : session.wallet.picked confirmedOnly with
  | none =>
      rw [Action.bind_of_error _ (getUtxo_finds_none isPicked)]
      refine ⟨nofun, fun _ error reached raised => ?_⟩
      cases raised
      exact sorted_perm session.wallet
  | some coin =>
      rw [Action.bind_of_ok _ (getUtxo_picks isPicked), orThrow]
      constructor
      · rintro keeps _ ⟨⟩
        cases made : make coin with
        | ok value => exact ⟨value, rfl⟩
        | error error => exact absurd (keeps error _ (by rw [made])) (erase_not_perm isPicked)
      · intro sure error reached raised
        obtain ⟨value, made⟩ := sure coin rfl
        rw [made] at raised
        cases raised

theorem keeps_of_unchanged {action : Action (Session ω) WalletRaised α}
    (same : (action session).2 = session) : Keeps action session := by
  intro error reached raised
  have unchanged : reached = session := by
    rw [raised] at same
    exact same
  rw [unchanged]

theorem keeps_congr {action other : Action (Session ω) WalletRaised α}
    (same : action session = other session) : Keeps action session ↔ Keeps other session := by
  unfold Keeps
  rw [same]

theorem createSelfTransfer_named {options : SelfTransfer} {coin : Utxo}
    (named : options.utxoToSpend = some coin) (session : Session ω) :
    (createSelfTransfer lib options session).2 = session := by
  unfold createSelfTransfer
  split
  · rfl
  · rw [named]
    rfl

/-- The rest of a chain from a coin that is named: it takes no other. -/
theorem createChainFrom_named (count : Nat) (coin : Utxo) (session : Session ω) :
    createChainFrom lib count (some coin) session = (chainOf lib count coin, session) := by
  induction count generalizing coin with
  | zero => rfl
  | succ count ih =>
      have first : createSelfTransfer lib
          { SelfTransfer.default with utxoToSpend := some coin } session =
            (selfTransferOf lib .default coin, session) := rfl
      unfold createChainFrom chainOf
      cases made : selfTransferOf lib .default coin with
      | error error =>
          rw [made] at first
          rw [Action.bind_of_error _ first]
          rfl
      | ok tx =>
          rw [made] at first
          rw [Action.bind_of_ok _ first]
          simp only [bind, Except.bind]
          cases (Wallet.newUtxos lib tx).head? with
          | none => rfl
          | some next =>
              have rest := ih next
              change (createChainFrom lib count (some next) >>= fun rest => pure (tx :: rest)) session = _
              rw [Action.bind_apply, rest]
              dsimp only
              cases chainOf lib count next with
              | error error => rfl
              | ok links => rfl

theorem createChainFrom_picks (count : Nat) (session : Session ω) :
    createChainFrom lib (count + 1) none session =
      (getUtxo none none true false >>= fun coin => orThrow (chainOf lib (count + 1) coin))
        session := by
  rcases run : getUtxo none none true false session with ⟨error | coin, reached⟩
  · have first : createSelfTransfer lib { SelfTransfer.default with utxoToSpend := none } session =
        (.error error, reached) := Action.bind_of_error _ run
    unfold createChainFrom
    rw [Action.bind_of_error _ first, Action.bind_of_error _ run]
  · have first : createSelfTransfer lib { SelfTransfer.default with utxoToSpend := none } session =
        (selfTransferOf lib .default coin, reached) := Action.bind_of_ok _ run
    have named : createSelfTransfer lib
        { SelfTransfer.default with utxoToSpend := some coin } reached =
          (selfTransferOf lib .default coin, reached) := rfl
    rw [Action.bind_of_ok _ run, orThrow, ← createChainFrom_named]
    unfold createChainFrom
    rw [Action.bind_apply, Action.bind_apply, first, named]

theorem sendTo_eq (env : Environment ω) (scriptPubKey : List Octet) (value : Int)
    (session : Session ω) :
    sendTo lib env scriptPubKey value session =
      (prepareSendTo lib scriptPubKey value >>= fun prepared =>
        broadcast lib env prepared.1 prepared.2) session := by
  unfold sendTo prepareSendTo send
  simp only [Action.bind_apply]
  rcases getUtxo none none true false session with ⟨error | coin, reached⟩
  · rfl
  · dsimp only [orThrow]
    rcases sendToOf lib scriptPubKey value coin with error | tx
    · rfl
    · dsimp only
      cases lib.serialize tx with
      | none => rfl
      | some octets => rfl

theorem prepareSendTo_picks (scriptPubKey : List Octet) (value : Int) (session : Session ω) :
    prepareSendTo lib scriptPubKey value session =
      (getUtxo none none true false >>= fun coin => orThrow (preparedOf lib scriptPubKey value coin))
        session := by
  unfold prepareSendTo
  simp only [Action.bind_apply]
  rcases getUtxo none none true false session with ⟨error | coin, reached⟩
  · rfl
  · unfold preparedOf
    dsimp only [orThrow, bind, Except.bind]
    rcases sendToOf lib scriptPubKey value coin with error | tx
    · rfl
    · dsimp only
      cases lib.serialize tx with
      | none => rfl
      | some octets => rfl

theorem createSelfTransferMulti_picks {options : SelfTransferMulti}
    (unnamed : options.utxosToSpend = none) (session : Session ω) :
    createSelfTransferMulti lib options session =
      (getUtxo none none true options.confirmedOnly >>= fun coin =>
        orThrow (selfTransferMultiOf lib options [coin])) session := by
  unfold createSelfTransferMulti
  rw [unnamed, pickCoins]
  simp only [Action.bind_apply]
  rcases getUtxo none none true options.confirmedOnly session with ⟨error | coin, reached⟩
  · rfl
  · rfl

/-- A call that builds transactions keeps the wallet's coins, where it raises, when no coin
is picked for it or nothing refuses what is built of the coin picked, and only then. -/
theorem build_keeps_coins_iff (lib : Btclib) (build : Build) (session : Session ω) :
    KeepsCoins lib build session ↔ build.Sure lib session.wallet := by
  cases build with
  | selfTransfer options =>
      unfold KeepsCoins Build.Sure
      dsimp only
      by_cases negative : options.feeRate < 0 ∨ options.fee < 0
      · have unchanged : (createSelfTransfer lib options session).2 = session := by
          rw [createSelfTransfer, if_pos negative]
          rfl
        exact ⟨fun _ impossible => absurd negative impossible, fun _ => keeps_of_unchanged unchanged⟩
      cases named : options.utxoToSpend with
      | some coin =>
          have unchanged : (createSelfTransfer lib options session).2 = session :=
            createSelfTransfer_named named session
          exact ⟨fun _ _ => nofun, fun _ => keeps_of_unchanged unchanged⟩
      | none =>
          have picks : (createSelfTransfer lib options : Action (Session ω) WalletRaised Tx) =
              getUtxo none none true options.confirmedOnly >>= fun coin =>
                orThrow (selfTransferOf lib options coin) := by
            rw [createSelfTransfer, if_neg negative, named]
            rfl
          rw [picks, picked_keeps_iff]
          simp only [negative, not_false_eq_true, forall_const, returns_selfTransferOf_iff]
  | selfTransferMulti options =>
      unfold KeepsCoins Build.Sure
      dsimp only
      cases named : options.utxosToSpend with
      | some coins =>
          have unchanged : (createSelfTransferMulti lib options session).2 = session :=
            congrArg Prod.snd (createSelfTransferMulti_named named session)
          exact ⟨fun _ => nofun, fun _ => keeps_of_unchanged unchanged⟩
      | none =>
          rw [keeps_congr (createSelfTransferMulti_picks named session), picked_keeps_iff]
          simp only [forall_const, returns_selfTransferMultiOf_iff]
  | chain chainLength utxoToSpend =>
      unfold KeepsCoins Build.Sure createSelfTransferChain
      dsimp only
      cases length : chainLength.toNat with
      | zero =>
          have unchanged : (createChainFrom lib 0 utxoToSpend session).2 = session := rfl
          exact ⟨fun _ _ => by omega, fun _ => keeps_of_unchanged unchanged⟩
      | succ count =>
          cases utxoToSpend with
          | some coin =>
              have unchanged : (createChainFrom lib (count + 1) (some coin) session).2 = session :=
                congrArg Prod.snd (createChainFrom_named (count + 1) coin session)
              exact ⟨fun _ _ => nofun, fun _ => keeps_of_unchanged unchanged⟩
          | none =>
              have positive : 0 < chainLength := by omega
              rw [keeps_congr (createChainFrom_picks count session), picked_keeps_iff]
              simp only [positive, forall_const, returns_chainOf_iff]
  | sendTo scriptPubKey value =>
      unfold KeepsCoins Build.Sure
      dsimp only
      rw [keeps_congr (prepareSendTo_picks scriptPubKey value session), picked_keeps_iff]
      simp only [returns_preparedOf_iff]

end Refused

end Session

def thousandHeld : Session Unit :=
  ⟨⟨[⟨⟨List.replicate 32 1, 0⟩, 1000, 5, true⟩], ∅, [], 105, 0⟩, (), [], []⟩

/-- The fee of a default self-transfer is more than the coin, which is gone. -/
theorem createSelfTransfer_loses_coin :
    ¬ Session.KeepsCoins PlainLib.lib (.selfTransfer .default) thousandHeld ∧
      (Session.createSelfTransfer PlainLib.lib .default thousandHeld).2.wallet.utxos = [] := by
  have gone : (Session.createSelfTransfer PlainLib.lib .default thousandHeld).2.wallet.utxos = [] :=
    rfl
  refine ⟨fun keeps => ?_, gone⟩
  have same : (Session.createSelfTransfer PlainLib.lib .default thousandHeld).2.wallet.utxos.Perm
      thousandHeld.wallet.utxos := keeps _ _ rfl
  rw [gone] at same
  exact absurd same.length_eq (by decide)

end BitcoinNodeTests
