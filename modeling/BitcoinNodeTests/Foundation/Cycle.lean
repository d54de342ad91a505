import Mathlib.Data.List.Nodup
import Mathlib.Data.List.Range
import Mathlib.Data.Nat.ModEq

/-!
# Walking round a cycle

`turn size start count` is where a walk of `count` steps from `start` stands on a cycle of
`size` places.  Two visits of one place are a whole lap apart, and every other place is
visited between them.
-/

set_option autoImplicit false

namespace BitcoinNodeTests.Foundation.Cycle

variable {size start first later place : Nat}

def turn (size start count : Nat) : Nat := (start + count) % size

theorem turn_lt (positive : 0 < size) (count : Nat) : turn size start count < size :=
  Nat.mod_lt _ positive

theorem turn_turn (count more : Nat) :
    turn size (turn size start count) more = turn size start (count + more) := by
  unfold turn
  rw [Nat.mod_add_mod, Nat.add_assoc]

theorem lap_le (after : first < later)
    (again : turn size start first = turn size start later) : size ≤ later - first := by
  have modEq : start + first ≡ start + later [MOD size] := again
  have divides := (Nat.modEq_iff_dvd' (by omega)).mp modEq
  have apart : start + later - (start + first) = later - first := by omega
  rw [apart] at divides
  exact Nat.le_of_dvd (by omega) divides

theorem exists_turn (inside : place < size) (first : Nat) :
    ∃ count < size, turn size start (first + count) = place := by
  have here := Nat.mod_lt (start + first) (by omega : 0 < size)
  refine ⟨(place + (size - (start + first) % size)) % size, Nat.mod_lt _ (by omega), ?_⟩
  unfold turn
  calc (start + (first + (place + (size - (start + first) % size)) % size)) % size
      = ((start + first) % size + (place + (size - (start + first) % size))) % size := by
        rw [← Nat.add_assoc, Nat.add_mod_mod, Nat.mod_add_mod]
    _ = (place + size) % size := by congr 1; omega
    _ = place := by rw [Nat.add_mod_right, Nat.mod_eq_of_lt inside]

/-- Between two visits of one place every other is visited. -/
theorem exists_between (inside : place < size) (after : first < later)
    (again : turn size start first = turn size start later)
    (other : turn size start first ≠ place) :
    ∃ between, first < between ∧ between < later ∧ turn size start between = place := by
  have lap := lap_le after again
  obtain ⟨count, within, met⟩ := @exists_turn size start place inside first
  have moved : count ≠ 0 := by
    rintro rfl
    exact other met
  exact ⟨first + count, by omega, by omega, met⟩

theorem lap_nodup (count : Nat) (within : count ≤ size) :
    ((List.range count).map (turn size start)).Nodup := by
  refine List.Nodup.map_on ?_ List.nodup_range
  intro first inFirst later inLater same
  have firstLt := List.mem_range.mp inFirst
  have laterLt := List.mem_range.mp inLater
  rcases Nat.lt_trichotomy first later with before | equal | behind
  · have lap := lap_le before same
    omega
  · exact equal
  · have lap := lap_le behind same.symm
    omega

end BitcoinNodeTests.Foundation.Cycle
