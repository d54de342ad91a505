import Mathlib.Data.List.Basic

/-!
# Numbers in text

Python's `str.isdecimal` and `int` of a text, over the decimal digits of Unicode: a digit
is one of the ten characters from a zero on.
-/

set_option autoImplicit false

namespace BitcoinNodeTests.Foundation.Decimal

def zeros : List Nat := [0x30, 0x660, 0x6f0, 0x7c0, 0x966, 0x9e6, 0xa66, 0xae6, 0xb66, 0xbe6,
  0xc66, 0xce6, 0xd66, 0xde6, 0xe50, 0xed0, 0xf20, 0x1040, 0x1090, 0x17e0, 0x1810, 0x1946,
  0x19d0, 0x1a80, 0x1a90, 0x1b50, 0x1bb0, 0x1c40, 0x1c50, 0xa620, 0xa8d0, 0xa900, 0xa9d0,
  0xa9f0, 0xaa50, 0xabf0, 0xff10, 0x104a0, 0x10d30, 0x11066, 0x110f0, 0x11136, 0x111d0,
  0x112f0, 0x11450, 0x114d0, 0x11650, 0x116c0, 0x11730, 0x118e0, 0x11950, 0x11c50, 0x11d50,
  0x11da0, 0x11f50, 0x16a60, 0x16ac0, 0x16b50, 0x1d7ce, 0x1d7d8, 0x1d7e2, 0x1d7ec, 0x1d7f6,
  0x1e140, 0x1e2f0, 0x1e4f0, 0x1e950, 0x1fbf0]

def spaces : List Nat := [0x9, 0xa, 0xb, 0xc, 0xd, 0x1c, 0x1d, 0x1e, 0x1f, 0x20, 0x85, 0xa0,
  0x1680, 0x2000, 0x2001, 0x2002, 0x2003, 0x2004, 0x2005, 0x2006, 0x2007, 0x2008, 0x2009,
  0x200a, 0x2028, 0x2029, 0x202f, 0x205f, 0x3000]

def digit (c : Char) : Option Nat :=
  (zeros.find? fun start => start ≤ c.toNat ∧ c.toNat < start + 10).map (c.toNat - ·)

def isDecimal (text : List Char) : Bool := !text.isEmpty && text.all fun c => (digit c).isSome

def isSpace (c : Char) : Bool := c.toNat ∈ spaces

def strip (text : List Char) : List Char :=
  ((text.dropWhile isSpace).reverse.dropWhile isSpace).reverse

def readDigits (sofar : Nat) : List Char → Option Nat
  | [] => none
  | [c] => (digit c).map (10 * sofar + ·)
  | c :: '_' :: rest => (digit c).bind fun value => readDigits (10 * sofar + value) rest
  | c :: next :: rest => (digit c).bind fun value => readDigits (10 * sofar + value) (next :: rest)

/-- `int` of a text, `none` where it raises `ValueError`. -/
def readInt (text : List Char) : Option Int :=
  match strip text with
  | '-' :: digits => (readDigits 0 digits).map fun value => -(value : Int)
  | '+' :: digits => (readDigits 0 digits).map fun value => (value : Int)
  | digits => (readDigits 0 digits).map fun value => (value : Int)

/-! ## The digits a number is printed in -/

theorem isDigit_bounds {c : Char} (isDigit : c.isDigit) : 0x30 ≤ c.toNat ∧ c.toNat ≤ 0x39 := by
  simp only [Char.isDigit, Bool.and_eq_true, decide_eq_true_eq, ge_iff_le] at isDigit
  exact isDigit

theorem digit_of_isDigit {c : Char} (isDigit : c.isDigit) : digit c = some (c.toNat - 0x30) := by
  obtain ⟨low, high⟩ := isDigit_bounds isDigit
  have within : 0x30 ≤ c.toNat ∧ c.toNat < 0x30 + 10 := ⟨low, by omega⟩
  unfold digit zeros
  rw [List.find?_cons_of_pos (by simpa using within)]
  rfl

theorem isSpace_of_isDigit {c : Char} (isDigit : c.isDigit) : isSpace c = false := by
  obtain ⟨low, high⟩ := isDigit_bounds isDigit
  have apart : ∀ space ∈ spaces, space < 0x30 ∨ 0x39 < space := by decide
  apply decide_eq_false
  intro member
  have outside := apart _ member
  omega

theorem isDecimal_toDigits (number : Nat) : isDecimal (Nat.toDigits 10 number) = true := by
  unfold isDecimal
  have nonempty : (Nat.toDigits 10 number).isEmpty = false := by
    rw [List.isEmpty_eq_false_iff]
    exact Nat.toDigits_ne_nil
  rw [nonempty, Bool.not_false, Bool.true_and, List.all_eq_true]
  intro c member
  rw [digit_of_isDigit (Nat.isDigit_of_mem_toDigits (by decide) (by decide) member)]
  rfl

theorem readDigits_of_isDigit (digits : List Char) (nonempty : digits ≠ [])
    (areDigits : ∀ c ∈ digits, c.isDigit) (sofar : Nat) :
    readDigits sofar digits = some (Nat.ofDigitChars 10 digits sofar) := by
  induction digits generalizing sofar with
  | nil => exact absurd rfl nonempty
  | cons c rest ih =>
      have first := digit_of_isDigit (areDigits c List.mem_cons_self)
      rw [Nat.ofDigitChars_cons]
      cases rest with
      | nil =>
          rw [readDigits, first]
          rfl
      | cons next more =>
          have later := ih (by simp) (fun d member => areDigits d (List.mem_cons_of_mem c member))
          have plain : next ≠ '_' := by
            rintro rfl
            exact absurd (areDigits '_' (by simp)) (by decide)
          rw [readDigits, first]
          · exact later _
          · exact plain

theorem strip_of_none {text : List Char} (plain : ∀ c ∈ text, isSpace c = false) :
    strip text = text := by
  have kept (line : List Char) (plainLine : ∀ c ∈ line, isSpace c = false) :
      line.dropWhile isSpace = line := by
    cases line with
    | nil => rfl
    | cons c rest => rw [List.dropWhile_cons, plainLine c List.mem_cons_self, if_neg nofun]
  unfold strip
  rw [kept text plain, kept text.reverse fun c member => plain c (List.mem_reverse.mp member),
    List.reverse_reverse]

theorem readInt_toDigits (number : Nat) : readInt (Nat.toDigits 10 number) = some (number : Int) := by
  have areDigits : ∀ c ∈ Nat.toDigits 10 number, c.isDigit := fun c member =>
    Nat.isDigit_of_mem_toDigits (by decide) (by decide) member
  have plain : ∀ c ∈ Nat.toDigits 10 number, isSpace c = false := fun c member =>
    isSpace_of_isDigit (areDigits c member)
  have read := readDigits_of_isDigit _ Nat.toDigits_ne_nil areDigits 0
  rw [Nat.ofDigitChars_ten_toDigits] at read
  unfold readInt
  rw [strip_of_none plain]
  split
  · rename_i digits same
    exact absurd (areDigits '-' (by rw [same]; simp)) (by decide)
  · rename_i digits same
    exact absurd (areDigits '+' (by rw [same]; simp)) (by decide)
  · rw [read]
    rfl

end BitcoinNodeTests.Foundation.Decimal
