import Mathlib.Data.List.Sort

/-!
# The median of a sliding window

The median of a list is the element halfway through its sorted values, the greater
of the middle two where they are even in number.  It is at most a bound exactly
where more than half of the values are, so no order has to be followed: a value
above a bound that a majority is at most, pushed into the window, has a majority
at most itself again, whichever value leaves the window.
-/

set_option autoImplicit false

namespace BitcoinNodeTests.Foundation

def lastOf {α : Type} (size : Nat) (values : List α) : List α :=
  values.drop (values.length - size)

theorem lastOf_append_singleton {α : Type} {size : Nat} (positive : 0 < size) (values : List α)
    (next : α) : lastOf size (values ++ [next]) = lastOf (size - 1) values ++ [next] := by
  have start : (values ++ [next]).length - size = values.length - (size - 1) := by
    rw [List.length_append, List.length_singleton]
    omega
  rw [lastOf, start, List.drop_append_of_le_length (by omega)]
  rfl

variable {α : Type} [LinearOrder α]

def median (values : List α) : Option α :=
  (values.insertionSort (· ≤ ·))[values.length / 2]?

def Majority (bound : α) (values : List α) : Prop :=
  values.length / 2 < values.countP (· ≤ bound)

theorem getElem_le_iff_lt_countP {values : List α} (sorted : values.Pairwise (· ≤ ·)) (bound : α) :
    ∀ (index : Nat) (inside : index < values.length),
      values[index] ≤ bound ↔ index < values.countP (· ≤ bound) := by
  induction values with
  | nil =>
      intro index inside
      simp at inside
  | cons first rest ih =>
      have firstLeast : ∀ value ∈ rest, first ≤ value := fun _ member =>
        List.rel_of_pairwise_cons sorted member
      have restSorted := List.Pairwise.of_cons sorted
      intro index inside
      by_cases below : first ≤ bound
      · rw [List.countP_cons_of_pos (by simpa using below)]
        cases index with
        | zero => simpa using below
        | succ index =>
            have inRest : index < rest.length := by simpa using inside
            rw [List.getElem_cons_succ, ih restSorted index inRest]
            omega
      · -- the first value is above the bound already, so all of them are
        have none : (first :: rest).countP (· ≤ bound) = 0 := by
          rw [List.countP_eq_zero]
          intro value member
          rcases List.mem_cons.mp member with rfl | member
          · simpa using below
          · have above := lt_of_lt_of_le (not_le.mp below) (firstLeast value member)
            simpa using above
        have above : bound < (first :: rest)[index] := by
          cases index with
          | zero => exact not_le.mp below
          | succ index => exact lt_of_lt_of_le (not_le.mp below) (firstLeast _ (List.getElem_mem _))
        rw [none]
        simpa using above

/-- The median is at most a bound exactly where a majority is. -/
theorem median_le_iff {values : List α} {middle : α} (found : median values = some middle)
    (bound : α) : middle ≤ bound ↔ Majority bound values := by
  obtain ⟨inside, atMiddle⟩ := List.getElem?_eq_some_iff.mp found
  have sorted := List.pairwise_insertionSort (· ≤ ·) values
  have sameCount := (List.perm_insertionSort (· ≤ ·) values).countP_eq (· ≤ bound)
  have atIndex := getElem_le_iff_lt_countP sorted bound (values.length / 2) inside
  rw [atMiddle, sameCount] at atIndex
  exact atIndex

/-- Of a full window one value leaves, of another none. -/
theorem countP_lastOf_pred {size : Nat} (values : List α) (bound : α) :
    (lastOf size values).countP (· ≤ bound) ≤
      (lastOf (size - 1) values).countP (· ≤ bound) + (if values.length < size then 0 else 1) := by
  by_cases partly : values.length < size
  · have same : lastOf (size - 1) values = lastOf size values := by
      rw [lastOf, lastOf]
      congr 1
      omega
    rw [same, if_pos partly]
    exact le_rfl
  · rw [if_neg partly]
    cases size with
    | zero => simp [lastOf]
    | succ size =>
        have inside : values.length - (size + 1) < values.length := by omega
        have next : values.length - (size + 1) + 1 = values.length - size := by omega
        rw [lastOf, List.drop_eq_getElem_cons inside, next, List.countP_cons]
        show _ ≤ (lastOf size values).countP (· ≤ bound) + 1
        rw [lastOf]
        split <;> omega

/-- A later, greater value has a majority at most itself in its own window. -/
theorem Majority.push {size : Nat} {bound next : α} {values : List α} (positive : 0 < size)
    (held : Majority bound (lastOf size values)) (later : bound < next) :
    Majority next (lastOf size (values ++ [next])) := by
  have raised : (lastOf (size - 1) values).countP (· ≤ bound) ≤
      (lastOf (size - 1) values).countP (· ≤ next) := by
    apply List.countP_mono_left
    intro value _ below
    simp only [decide_eq_true_eq] at below ⊢
    exact below.trans later.le
  have left := @countP_lastOf_pred α _ size values bound
  unfold Majority at held ⊢
  rw [lastOf_append_singleton positive, List.countP_append]
  have counted : [next].countP (· ≤ next) = 1 := by simp
  rw [counted]
  simp only [lastOf, List.length_append, List.length_drop, List.length_singleton] at held left raised ⊢
  split at left <;> omega

end BitcoinNodeTests.Foundation
