import BitcoinNodeTests.Foundation.Coding
import BitcoinNodeTests.MiniWallet.Transaction

/-!
# A btclib that hashes nothing

Identifiers and encodings are the values themselves written as octets, and every
header is solved, so that what results assume of btclib has an instance that
computes.
-/

set_option autoImplicit false

namespace BitcoinNodeTests

open Foundation

namespace PlainLib

def octets : Coding (List Octet) := .list .octet

def outPoint : Coding OutPoint :=
  (octets.both .nat).through (fun outpoint => (outpoint.txId, outpoint.vout))
    (fun fields => ⟨fields.1, fields.2⟩) fun _ => rfl

def txIn : Coding TxIn :=
  (outPoint.both (octets.both (Coding.int.both (.list octets)))).through
    (fun txIn => (txIn.prevOut, txIn.scriptSig, txIn.sequence, txIn.scriptWitness))
    (fun fields => ⟨fields.1, fields.2.1, fields.2.2.1, fields.2.2.2⟩) fun _ => rfl

def txOut : Coding TxOut :=
  (Coding.int.both octets).through (fun txOut => (txOut.value, txOut.scriptPubKey))
    (fun fields => ⟨fields.1, fields.2⟩) fun _ => rfl

def tx : Coding Tx :=
  (Coding.int.both (Coding.int.both (Coding.both (.list txIn) (.list txOut)))).through
    (fun tx => (tx.version, tx.lockTime, tx.vin, tx.vout))
    (fun fields => ⟨fields.1, fields.2.1, fields.2.2.1, fields.2.2.2⟩) fun _ => rfl

def header : Coding Header :=
  (Coding.int.both (octets.both (octets.both (Coding.int.both (octets.both .nat))))).through
    (fun header => (header.version, header.previousBlockHash, header.merkleRoot, header.time,
      header.bits, header.nonce))
    (fun fields => ⟨fields.1, fields.2.1, fields.2.2.1, fields.2.2.2.1, fields.2.2.2.2.1,
      fields.2.2.2.2.2⟩) fun _ => rfl

def block : Coding Block :=
  (header.both (.list tx)).through (fun block => (block.header, block.transactions))
    (fun fields => ⟨fields.1, fields.2⟩) fun _ => rfl

def coinbase (height : Int) (scriptPubKey : List Octet) (halvingInterval : Int) : Tx where
  version := 1
  lockTime := 0
  vin := [⟨⟨List.replicate 32 0, 0xffffffff⟩, Coding.int.write height, 0xffffffff, []⟩]
  vout := [⟨5000000000 / 2 ^ (height / halvingInterval).toNat, scriptPubKey⟩]

def lib : Btclib where
  txId := tx.write
  serialize transaction := some (tx.write transaction)
  parse octets := (tx.read octets).map Prod.fst
  validTxIn _ := true
  validTxOut txOut := 0 ≤ txOut.value
  validTx _ := true
  anyoneCanSpend := [0x51]
  witness := [[0x51], [0xc0]]
  subsidy height halvingInterval := 5000000000 / 2 ^ (height / halvingInterval).toNat
  buildCoinbase height scriptPubKey halvingInterval :=
    some (coinbase height scriptPubKey halvingInterval)
  buildBlock previous transactions time version := some {
    header := ⟨version, previous, transactions.flatMap tx.write, time, [0x20, 0x7f, 0xff, 0xff], 0⟩
    transactions := transactions }
  commitWitnesses coinbase _ := coinbase
  miningVersion := 0x20000000
  mine header := some header
  blockHash header := header.merkleRoot
  serializeBlock mined := some (block.write mined)

theorem blockLaws : BlockLaws lib where
  build built := by
    cases built
    exact ⟨rfl, rfl⟩
  transactions built := by
    cases built
    rfl
  mine mined := by
    cases mined
    exact ⟨rfl, rfl⟩

theorem parse_serialize (transaction : Tx) :
    lib.parse (tx.write transaction) = some transaction := by
  have reads := tx.reads transaction []
  rw [List.append_nil] at reads
  simp only [lib, reads, Option.map_some]

theorem txId_injective : Function.Injective lib.txId := tx.write_injective

end PlainLib

end BitcoinNodeTests
