import Mathlib.Data.List.Nodup

/-!
# Python's dict

Entries in the order their keys were first set: setting a key again changes its value in
its place.
-/

set_option autoImplicit false

namespace BitcoinNodeTests.Foundation

variable {κ α : Type} [DecidableEq κ]

structure Dict (κ α : Type) where
  entries : List (κ × α)
  distinct : (entries.map Prod.fst).Nodup
  deriving DecidableEq

namespace Dict

def empty : Dict κ α := ⟨[], List.nodup_nil⟩

def valueIn (key : κ) : List (κ × α) → Option α
  | [] => none
  | (other, value) :: rest => if other = key then some value else valueIn key rest

def get (key : κ) (dict : Dict κ α) : Option α := valueIn key dict.entries

def setIn (key : κ) (value : α) : List (κ × α) → List (κ × α)
  | [] => [(key, value)]
  | (other, old) :: rest =>
      if other = key then (key, value) :: rest else (other, old) :: setIn key value rest

theorem mem_keys_setIn {key other : κ} {value : α} {entries : List (κ × α)} :
    other ∈ (setIn key value entries).map Prod.fst ↔
      other = key ∨ other ∈ entries.map Prod.fst := by
  induction entries with
  | nil => simp [setIn]
  | cons entry rest ih =>
      obtain ⟨first, old⟩ := entry
      by_cases same : first = key
      · simp [setIn, same]
      · simp only [setIn, if_neg same, List.map_cons, List.mem_cons, ih]
        grind

theorem setIn_distinct {entries : List (κ × α)} (distinct : (entries.map Prod.fst).Nodup) (key : κ)
    (value : α) : ((setIn key value entries).map Prod.fst).Nodup := by
  induction entries with
  | nil => exact List.nodup_singleton key
  | cons entry rest ih =>
      obtain ⟨first, old⟩ := entry
      obtain ⟨new, later⟩ := List.nodup_cons.mp distinct
      by_cases same : first = key
      · rw [setIn, if_pos same]
        exact List.nodup_cons.mpr ⟨same ▸ new, later⟩
      · rw [setIn, if_neg same]
        refine List.nodup_cons.mpr ⟨?_, ih later⟩
        rw [mem_keys_setIn]
        exact not_or.mpr ⟨same, new⟩

def set (key : κ) (value : α) (dict : Dict κ α) : Dict κ α :=
  ⟨setIn key value dict.entries, setIn_distinct dict.distinct key value⟩

def values (dict : Dict κ α) : List α := dict.entries.map Prod.snd

theorem valueIn_setIn (key other : κ) (value : α) (entries : List (κ × α)) :
    valueIn other (setIn key value entries) =
      if other = key then some value else valueIn other entries := by
  induction entries with
  | nil =>
      by_cases same : other = key
      · simp [setIn, valueIn, same]
      · simp [setIn, valueIn, same, Ne.symm same]
  | cons entry rest ih =>
      obtain ⟨first, old⟩ := entry
      by_cases isFirst : first = key
      · by_cases same : other = key
        · simp [setIn, valueIn, isFirst, same]
        · simp [setIn, valueIn, isFirst, same, Ne.symm same]
      · rw [setIn, if_neg isFirst, valueIn, ih, valueIn]
        by_cases same : other = key
        · subst same
          simp [isFirst]
        · simp [same]

@[simp] theorem get_set (key other : κ) (value : α) (dict : Dict κ α) :
    (dict.set key value).get other = if other = key then some value else dict.get other :=
  valueIn_setIn key other value dict.entries

@[simp] theorem get_empty (key : κ) : (empty : Dict κ α).get key = none := rfl

theorem setIn_of_new {key : κ} {entries : List (κ × α)} (new : valueIn key entries = none)
    (value : α) : setIn key value entries = entries ++ [(key, value)] := by
  induction entries with
  | nil => rfl
  | cons entry rest ih =>
      obtain ⟨first, old⟩ := entry
      unfold valueIn at new
      split at new
      · cases new
      · rename_i other
        rw [setIn, if_neg other, ih new]
        rfl

theorem entries_set_of_new {key : κ} {dict : Dict κ α} (new : dict.get key = none) (value : α) :
    (dict.set key value).entries = dict.entries ++ [(key, value)] := setIn_of_new new value

theorem valueIn_eq_none {key : κ} {entries : List (κ × α)} :
    valueIn key entries = none ↔ key ∉ entries.map Prod.fst := by
  induction entries with
  | nil => simp [valueIn]
  | cons entry rest ih =>
      obtain ⟨first, old⟩ := entry
      rw [valueIn, List.map_cons, List.mem_cons, not_or, ← ih]
      by_cases same : first = key
      · simp [same]
      · simp [same, Ne.symm same]

theorem valueIn_eq_some {key : κ} {value : α} {entries : List (κ × α)}
    (distinct : (entries.map Prod.fst).Nodup) :
    valueIn key entries = some value ↔ (key, value) ∈ entries := by
  induction entries with
  | nil => simp [valueIn]
  | cons entry rest ih =>
      obtain ⟨first, old⟩ := entry
      obtain ⟨new, later⟩ := List.nodup_cons.mp distinct
      by_cases same : first = key
      · subst same
        have absent : (first, value) ∉ rest := fun member =>
          new (List.mem_map.mpr ⟨_, member, rfl⟩)
        simp [valueIn, absent, eq_comm]
      · simp [valueIn, same, Ne.symm same, ih later]

theorem mem_values {value : α} {dict : Dict κ α} :
    value ∈ dict.values ↔ ∃ key, dict.get key = some value := by
  simp only [values, get, valueIn_eq_some dict.distinct]
  constructor
  · intro member
    obtain ⟨⟨key, _⟩, inDict, rfl⟩ := List.mem_map.mp member
    exact ⟨key, inDict⟩
  · rintro ⟨key, inDict⟩
    exact List.mem_map.mpr ⟨(key, value), inDict, rfl⟩

theorem forall_get {property : κ → α → Prop} {dict : Dict κ α}
    (all : ∀ entry ∈ dict.entries, property entry.1 entry.2) :
    ∀ key value, dict.get key = some value → property key value := by
  intro key value found
  exact all (key, value) ((valueIn_eq_some dict.distinct).mp found)

def eraseIn (key : κ) (entries : List (κ × α)) : List (κ × α) :=
  entries.filter fun entry => entry.1 ≠ key

def erase (key : κ) (dict : Dict κ α) : Dict κ α :=
  ⟨eraseIn key dict.entries, dict.distinct.sublist (List.filter_sublist.map Prod.fst)⟩

theorem valueIn_eraseIn (key other : κ) (entries : List (κ × α)) :
    valueIn other (eraseIn key entries) = if other = key then none else valueIn other entries := by
  induction entries with
  | nil => simp [eraseIn, valueIn]
  | cons entry rest ih =>
      obtain ⟨first, old⟩ := entry
      unfold eraseIn at ih ⊢
      by_cases isFirst : first = key
      · rw [List.filter_cons_of_neg (by simp [isFirst]), ih, valueIn]
        by_cases same : other = key
        · simp [same]
        · simp [isFirst, same, Ne.symm same]
      · rw [List.filter_cons_of_pos (by simp [isFirst]), valueIn, ih, valueIn]
        by_cases same : other = key
        · subst same
          simp [isFirst]
        · simp [same]

@[simp] theorem get_erase (key other : κ) (dict : Dict κ α) :
    (dict.erase key).get other = if other = key then none else dict.get other :=
  valueIn_eraseIn key other dict.entries

end Dict

end BitcoinNodeTests.Foundation
