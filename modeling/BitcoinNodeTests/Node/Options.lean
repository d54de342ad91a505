import Mathlib.Data.List.Basic

/-!
# The options of a node's command line

An argv entry names an option when it opens with a dash; an `extra_args` entry may not
name one the command line already sets, in any of its spellings.
-/

set_option autoImplicit false

namespace BitcoinNodeTests

def CHAIN_SELECTORS : List String := ["chain", "regtest", "testnet", "testnet4", "signet"]

def optionName (token : String) : Option String :=
  if token.toList.head? = some '-' then
    let name := (token.toList.dropWhile (· = '-')).takeWhile (· ≠ '=')
    if name = [] then none else some (String.ofList name)
  else none

def canonicalOptionName (name : String) : String :=
  match name.toList with
  | 'n' :: 'o' :: rest => if rest = [] then name else String.ofList rest
  | _ => name

def reservedOptionNames (command : List String) : List String :=
  let reserved := (command.filterMap optionName).map canonicalOptionName
  if reserved.any (· ∈ CHAIN_SELECTORS) then reserved ++ CHAIN_SELECTORS else reserved

/-- The option `arg` names, where it is one of `reserved`. -/
def reused (reserved : List String) (arg : String) : Option String :=
  match optionName arg with
  | none => none
  | some name =>
      if canonicalOptionName name ∈ reserved then some (canonicalOptionName name) else none

/-- The `ValueError` of `_check_extra_args`, `none` where it returns. -/
def checkExtraArgs (command : List String) : List String → Option String
  | [] => none
  | arg :: rest =>
      match reused (reservedOptionNames command) arg with
      | some canonical =>
          some s!"extra_args reuses -{canonical}, which this adapter sets itself"
      | none => checkExtraArgs command rest

theorem reused_eq_none_iff {reserved : List String} {arg : String} :
    reused reserved arg = none ↔
      ∀ name, optionName arg = some name → canonicalOptionName name ∉ reserved := by
  unfold reused
  cases named : optionName arg with
  | none => simp
  | some name =>
      by_cases member : canonicalOptionName name ∈ reserved
      · simp [member]
      · simp [member]

/-- What is not refused names, in any spelling, no option the command sets. -/
theorem checkExtraArgs_eq_none_iff {command extraArgs : List String} :
    checkExtraArgs command extraArgs = none ↔
      ∀ arg ∈ extraArgs, ∀ name, optionName arg = some name →
        canonicalOptionName name ∉ reservedOptionNames command := by
  induction extraArgs with
  | nil => simp [checkExtraArgs]
  | cons arg rest ih =>
      rw [checkExtraArgs, List.forall_mem_cons, ← reused_eq_none_iff, ← ih]
      cases reused (reservedOptionNames command) arg with
      | none => simp
      | some canonical => simp

end BitcoinNodeTests
