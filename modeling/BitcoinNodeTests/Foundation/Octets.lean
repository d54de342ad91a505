import Mathlib.Tactic.IntervalCases

/-!
# Octets and their hexadecimal text

Python's `bytes.hex` and `bytes.fromhex`, the second of which skips ASCII white
space between octets and takes digits of either case.
-/

set_option autoImplicit false

namespace BitcoinNodeTests

abbrev Octet : Type := UInt8

/-- Octet strings are looked up among others by this one instance. -/
instance lawfulBEqOctets : LawfulBEq (List Octet) := inferInstance

namespace Foundation

def hexDigit (value : Nat) : Char :=
  if value < 10 then Char.ofNat (48 + value) else Char.ofNat (87 + value)

def hexChars (octets : List Octet) : List Char :=
  octets.flatMap fun octet => [hexDigit (octet.toNat / 16), hexDigit (octet.toNat % 16)]

def hex (octets : List Octet) : String := String.ofList (hexChars octets)

def hexValue (digit : Char) : Option Nat :=
  let code := digit.toNat
  if 48 ≤ code ∧ code ≤ 57 then some (code - 48)
  else if 97 ≤ code ∧ code ≤ 102 then some (code - 87)
  else if 65 ≤ code ∧ code ≤ 70 then some (code - 55)
  else none

def isSpace (char : Char) : Bool :=
  char.toNat = 32 || (9 ≤ char.toNat && char.toNat ≤ 13)

def fromHexChars : List Char → Option (List Octet)
  | [] => some []
  | [last] => if isSpace last then some [] else none
  | high :: low :: rest =>
      if isSpace high then fromHexChars (low :: rest)
      else do
        let highValue ← hexValue high
        let lowValue ← hexValue low
        let octets ← fromHexChars rest
        some (UInt8.ofNat (16 * highValue + lowValue) :: octets)

def fromHex (text : String) : Option (List Octet) := fromHexChars text.toList

theorem hexValue_hexDigit {value : Nat} (small : value < 16) :
    hexValue (hexDigit value) = some value ∧ isSpace (hexDigit value) = false := by
  interval_cases value <;> decide

theorem fromHexChars_hexChars (octets : List Octet) :
    fromHexChars (hexChars octets) = some octets := by
  induction octets with
  | nil => rfl
  | cons octet rest ih =>
      have bound := octet.toNat_lt
      have highSmall : octet.toNat / 16 < 16 := by omega
      have lowSmall : octet.toNat % 16 < 16 := by omega
      obtain ⟨highValue, highPlain⟩ := hexValue_hexDigit highSmall
      obtain ⟨lowValue, -⟩ := hexValue_hexDigit lowSmall
      have whole : UInt8.ofNat (16 * (octet.toNat / 16) + octet.toNat % 16) = octet := by
        rw [Nat.div_add_mod, UInt8.ofNat_toNat]
      have split : hexChars (octet :: rest) =
          hexDigit (octet.toNat / 16) :: hexDigit (octet.toNat % 16) :: hexChars rest := rfl
      rw [split, fromHexChars, highPlain, highValue, lowValue, ih]
      simp only [Bool.false_eq_true, if_false, Option.bind_eq_bind, Option.bind_some, whole]

@[simp] theorem fromHex_hex (octets : List Octet) : fromHex (hex octets) = some octets := by
  rw [fromHex, hex, String.toList_ofList, fromHexChars_hexChars]

theorem hex_injective : Function.Injective hex := by
  intro first second same
  have read := congrArg fromHex same
  rw [fromHex_hex, fromHex_hex] at read
  exact Option.some.inj read

end Foundation

end BitcoinNodeTests
