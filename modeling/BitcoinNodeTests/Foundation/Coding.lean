import BitcoinNodeTests.Foundation.Octets

/-!
# Self-delimiting encodings

A `Coding` writes values as octets and reads a value back from the front of any octets
that go on with something else; its `reads` law makes `write` injective.  Codings of
numbers, pairs and lists make one of any record.
-/

set_option autoImplicit false

namespace BitcoinNodeTests.Foundation

structure Coding (α : Type) where
  write : α → List Octet
  read : List Octet → Option (α × List Octet)
  reads : ∀ value after, read (write value ++ after) = some (value, after)

namespace Coding

variable {α β : Type}

theorem write_injective (coding : Coding α) : Function.Injective coding.write := by
  intro first second same
  have readFirst := coding.reads first []
  rw [same, coding.reads second []] at readFirst
  exact (Prod.mk.inj (Option.some.inj readFirst)).1.symm

/-- Write a value as another it can be made of again. -/
def through (coding : Coding α) (unmake : β → α) (make : α → β)
    (inverse : ∀ value, make (unmake value) = value) : Coding β where
  write value := coding.write (unmake value)
  read octets := (coding.read octets).map fun found => (make found.1, found.2)
  reads value after := by simp only [coding.reads, Option.map_some, inverse]

def both (first : Coding α) (second : Coding β) : Coding (α × β) where
  write value := first.write value.1 ++ second.write value.2
  read octets := (first.read octets).bind fun left =>
    (second.read left.2).map fun right => ((left.1, right.1), right.2)
  reads value after := by
    simp only [List.append_assoc, first.reads, Option.bind_some, second.reads, Option.map_some]

/-! ## Numbers -/

/-- Seven bits an octet, the lowest first, in at most `size + 1` octets. -/
def natOctets : Nat → Nat → List Octet
  | 0, value => [UInt8.ofNat value]
  | size + 1, value =>
      if value < 128 then [UInt8.ofNat value]
      else UInt8.ofNat (128 + value % 128) :: natOctets size (value / 128)

def readNat : List Octet → Option (Nat × List Octet)
  | [] => none
  | octet :: rest =>
      if octet.toNat < 128 then some (octet.toNat, rest)
      else (readNat rest).map fun high => (128 * high.1 + (octet.toNat - 128), high.2)

theorem readNat_last {value : Nat} (small : value < 128) (after : List Octet) :
    readNat ([UInt8.ofNat value] ++ after) = some (value, after) := by
  have same : (UInt8.ofNat value).toNat = value := by
    rw [UInt8.toNat_ofNat']
    omega
  simp only [List.cons_append, List.nil_append, readNat, same, if_pos small]

theorem readNat_natOctets (size : Nat) :
    ∀ (value : Nat) (after : List Octet), value < 128 ^ (size + 1) →
      readNat (natOctets size value ++ after) = some (value, after) := by
  induction size with
  | zero =>
      intro value after small
      exact readNat_last (by omega) after
  | succ size ih =>
      intro value after bound
      rw [natOctets]
      by_cases small : value < 128
      · rw [if_pos small]
        exact readNat_last small after
      · rw [if_neg small, List.cons_append, readNat]
        have same : (UInt8.ofNat (128 + value % 128)).toNat = 128 + value % 128 := by
          rw [UInt8.toNat_ofNat']
          omega
        have high : value / 128 < 128 ^ (size + 1) := by
          rw [Nat.pow_succ] at bound
          exact Nat.div_lt_of_lt_mul (by omega)
        have split : 128 * (value / 128) + (128 + value % 128 - 128) = value := by omega
        rw [same, if_neg (by omega), ih _ _ high, Option.map_some]
        simp only [split]

def nat : Coding Nat where
  write value := natOctets (Nat.log2 value) value
  read := readNat
  reads value after := by
    apply readNat_natOctets
    calc value < 2 ^ (Nat.log2 value + 1) := Nat.lt_log2_self
      _ ≤ 128 ^ (Nat.log2 value + 1) := Nat.pow_le_pow_left (by decide) _

def octet : Coding Octet where
  write value := [value]
  read
    | [] => none
    | first :: rest => some (first, rest)
  reads _ _ := rfl

def zigzag (value : Int) : Nat := if 0 ≤ value then 2 * value.natAbs else 2 * value.natAbs + 1

def unzigzag (value : Nat) : Int := if value % 2 = 0 then (value / 2 : Nat) else -(value / 2 : Nat)

theorem unzigzag_zigzag (value : Int) : unzigzag (zigzag value) = value := by
  unfold unzigzag zigzag
  by_cases positive : 0 ≤ value
  · rw [if_pos positive, if_pos (by omega)]
    omega
  · rw [if_neg positive, if_neg (by omega)]
    omega

def int : Coding Int := nat.through zigzag unzigzag unzigzag_zigzag

/-! ## Lists -/

def readMany (coding : Coding α) : Nat → List Octet → Option (List α × List Octet)
  | 0, octets => some ([], octets)
  | count + 1, octets => (coding.read octets).bind fun first =>
      (readMany coding count first.2).map fun rest => (first.1 :: rest.1, rest.2)

theorem readMany_flatMap (coding : Coding α) (values : List α) (after : List Octet) :
    readMany coding values.length (values.flatMap coding.write ++ after) = some (values, after) := by
  induction values with
  | nil => rfl
  | cons value rest ih =>
      simp only [List.flatMap_cons, List.append_assoc, List.length_cons, readMany, coding.reads,
        Option.bind_some, ih, Option.map_some]

def list (coding : Coding α) : Coding (List α) where
  write values := nat.write values.length ++ values.flatMap coding.write
  read octets := (nat.read octets).bind fun count => readMany coding count.1 count.2
  reads values after := by
    simp only [List.append_assoc, nat.reads, Option.bind_some, readMany_flatMap]

end Coding

end BitcoinNodeTests.Foundation
