import Mathlib.Data.List.Perm.Basic
import Mathlib.Order.Defs.Unbundled

/-!
# The first of the sorted values that pass

A filter of sorted values starts with a value that every other one passing comes after,
and a filter of the same values reversed starts with one that they come before: one sort
serves two opposite preferences.
-/

set_option autoImplicit false

namespace BitcoinNodeTests.Foundation

variable {α : Type} {relation : α → α → Prop} {passes : α → Prop} {values : List α} {first : α}

/-- `first` passes, and stands in `relation` to every value that passes. -/
structure Preferred (relation : α → α → Prop) (passes : α → Prop) (values : List α) (first : α) :
    Prop where
  among : first ∈ values
  passing : passes first
  preferred : ∀ other ∈ values, passes other → relation first other

theorem Preferred.of_perm {others : List α} (preferred : Preferred relation passes values first)
    (same : values.Perm others) : Preferred relation passes others first :=
  ⟨same.mem_iff.mp preferred.among, preferred.passing,
    fun other member => preferred.preferred other (same.mem_iff.mpr member)⟩

theorem preferred_of_head [Std.Refl relation] [DecidablePred passes]
    (sorted : values.Pairwise relation)
    (isHead : (values.filter passes).head? = some first) :
    Preferred relation passes values first := by
  induction values with
  | nil => cases isHead
  | cons value rest ih =>
      have later := List.pairwise_cons.mp sorted
      by_cases passing : passes value
      · rw [List.filter_cons_of_pos (by simpa using passing)] at isHead
        obtain rfl := Option.some.inj isHead
        refine ⟨List.mem_cons_self, passing, fun other member _ => ?_⟩
        rcases List.mem_cons.mp member with same | member
        · rw [same]
          exact Std.Refl.refl _
        · exact later.1 other member
      · rw [List.filter_cons_of_neg (by simpa using passing)] at isHead
        have earlier := ih later.2 isHead
        refine ⟨List.mem_cons_of_mem _ earlier.among, earlier.passing, fun other member passes => ?_⟩
        rcases List.mem_cons.mp member with same | member
        · exact absurd (same ▸ passes) passing
        · exact earlier.preferred other member passes

/-- The last of the sorted values that pass stands in the converse. -/
theorem preferred_of_head_reverse [Std.Refl relation] [DecidablePred passes]
    (sorted : values.Pairwise relation)
    (isHead : (values.reverse.filter passes).head? = some first) :
    Preferred (fun former latter => relation latter former) passes values first := by
  have reflexive : Std.Refl fun former latter => relation latter former :=
    ⟨fun value => Std.Refl.refl (r := relation) value⟩
  exact (preferred_of_head (List.pairwise_reverse.mpr sorted) isHead).of_perm
    (List.reverse_perm values)

theorem filter_head_none [DecidablePred passes] :
    (values.filter passes).head? = none ↔ ∀ value ∈ values, ¬ passes value := by
  rw [List.head?_eq_none_iff, List.filter_eq_nil_iff]
  simp

end BitcoinNodeTests.Foundation
