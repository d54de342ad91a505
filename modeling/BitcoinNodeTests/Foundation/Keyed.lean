import Mathlib.Algebra.BigOperators.Group.List.Basic
import Mathlib.Algebra.Order.Ring.Int
import Mathlib.Data.List.Nodup

/-!
# Taking keyed entries out of a list

Entries whose keys are distinct are named by their keys: dropping the keys of some of them
drops exactly those.
-/

set_option autoImplicit false

namespace BitcoinNodeTests.Foundation.Keyed

variable {α κ : Type} [DecidableEq κ] {key : α → κ} {entries taken : List α}

def without (key : α → κ) (taken entries : List α) : List α :=
  entries.filter fun entry => key entry ∉ taken.map key

omit [DecidableEq κ] in
theorem eq_of_key (distinct : (entries.map key).Nodup) {first second : α}
    (inFirst : first ∈ entries) (inSecond : second ∈ entries) (same : key first = key second) :
    first = second :=
  List.inj_on_of_nodup_map distinct inFirst inSecond same

theorem taken_perm (distinct : (entries.map key).Nodup) (takenDistinct : taken.Nodup)
    (within : ∀ entry ∈ taken, entry ∈ entries) :
    entries.Perm (taken ++ without key taken entries) := by
  have named : (entries.filter fun entry => key entry ∈ taken.map key).Perm taken := by
    rw [List.perm_ext_iff_of_nodup (distinct.of_map.filter _) takenDistinct]
    intro entry
    rw [List.mem_filter, decide_eq_true_iff]
    constructor
    · rintro ⟨member, isTaken⟩
      obtain ⟨other, otherTaken, same⟩ := List.mem_map.mp isTaken
      exact eq_of_key distinct (within other otherTaken) member same ▸ otherTaken
    · exact fun isTaken => ⟨within entry isTaken, List.mem_map_of_mem isTaken⟩
  have split := List.filter_append_perm (fun entry => decide (key entry ∈ taken.map key)) entries
  refine split.symm.trans (named.append (List.Perm.of_eq ?_))
  unfold without
  simp only [decide_not]

theorem sum_without (distinct : (entries.map key).Nodup) (takenDistinct : taken.Nodup)
    (within : ∀ entry ∈ taken, entry ∈ entries) (value : α → Int) :
    ((without key taken entries).map value).sum =
      (entries.map value).sum - (taken.map value).sum := by
  have sums := ((taken_perm distinct takenDistinct within).map value).sum_eq
  rw [List.map_append, List.sum_append] at sums
  omega

theorem without_cons {entry : α} (isTaken : entry ∈ taken) (entries : List α) :
    without key taken (entry :: entries) = without key taken entries := by
  have named : key entry ∈ taken.map key := List.mem_map_of_mem isTaken
  unfold without
  rw [List.filter_cons_of_neg (by simpa using named)]

theorem without_perm {other : List α} (same : other.Perm entries) :
    (without key taken other).Perm (without key taken entries) := same.filter _

theorem without_erase [DecidableEq α] {entry : α} (isTaken : entry ∈ taken) (entries : List α) :
    (without key taken (entries.erase entry)).Perm (without key taken entries) := by
  by_cases member : entry ∈ entries
  · have back := @without_perm _ _ _ key _ taken _ (List.perm_cons_erase member)
    rw [without_cons isTaken] at back
    exact back.symm
  · rw [List.erase_of_not_mem member]

end BitcoinNodeTests.Foundation.Keyed
