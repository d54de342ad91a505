import Mathlib.Data.List.Infix
import Mathlib.Data.Nat.Find

/-!
# Where a list first occurs in another

A search over a text that is still growing asks again of each longer front.  What occurs in a
front occurs in the text at the same place, and what occurs in the text occurs in every front
that reaches past it.
-/

set_option autoImplicit false

namespace BitcoinNodeTests.Foundation

variable {α : Type}

def OccursAt (sub text : List α) (place : Nat) : Prop := sub <+: text.drop place

structure FirstAt (sub text : List α) (place : Nat) : Prop where
  occurs : OccursAt sub text place
  first : ∀ earlier < place, ¬ OccursAt sub text earlier

variable {sub text front : List α} {place other : Nat}

theorem take_of_front {size : Nat} (isFront : front <+: text) (within : size ≤ front.length) :
    front.take size = text.take size := by
  obtain ⟨rest, rfl⟩ := isFront
  rw [List.take_append_of_le_length within]

theorem OccursAt.of_front (occurs : OccursAt sub front place) (isFront : front <+: text) :
    OccursAt sub text place :=
  occurs.trans (isFront.drop place)

theorem OccursAt.in_front (occurs : OccursAt sub text place) (isFront : front <+: text)
    (reaches : place + sub.length ≤ front.length) : OccursAt sub front place := by
  refine List.prefix_of_prefix_length_le occurs (isFront.drop place) ?_
  rw [List.length_drop]
  omega

theorem OccursAt.firstAt (occurs : OccursAt sub text place) :
    ∃ least ≤ place, FirstAt sub text least := by
  classical
  have some : ∃ place, OccursAt sub text place := ⟨place, occurs⟩
  exact ⟨Nat.find some, Nat.find_min' some occurs, Nat.find_spec some,
    fun earlier before => Nat.find_min some before⟩

theorem FirstAt.unique (firstAt : FirstAt sub text place) (otherAt : FirstAt sub text other) :
    place = other := by
  by_contra differ
  rcases Nat.lt_or_gt_of_ne differ with before | before
  · exact otherAt.first place before firstAt.occurs
  · exact firstAt.first other before otherAt.occurs

theorem FirstAt.fits (firstAt : FirstAt sub text place) :
    place + sub.length ≤ text.length := by
  have size := firstAt.occurs.length_le
  rw [List.length_drop] at size
  by_cases inside : place ≤ text.length
  · omega
  · -- past the end only the empty list occurs, and that one occurs at 0
    have empty : sub = [] := List.eq_nil_of_length_eq_zero (by omega)
    have start : OccursAt sub text 0 := by
      rw [empty]
      exact List.nil_prefix
    exact absurd start (firstAt.first 0 (by omega))

theorem FirstAt.of_front (firstAt : FirstAt sub front place) (isFront : front <+: text) :
    FirstAt sub text place := by
  have fits := firstAt.fits
  refine ⟨firstAt.occurs.of_front isFront, fun earlier before occurs => ?_⟩
  exact firstAt.first earlier before (occurs.in_front isFront (by omega))

end BitcoinNodeTests.Foundation
