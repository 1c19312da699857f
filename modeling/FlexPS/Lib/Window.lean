import Mathlib

/-! # Ring buffers

A window of at most `size` consecutive indices uses each slot modulo `size` once.
-/

namespace Window

/-- `index` lies in the window of `size` indices that starts at `first`. -/
def Inside (first size index : Nat) : Prop := first ≤ index ∧ index < first + size

theorem mod_injective {first size i j : Nat} (hi : Inside first size i) (hj : Inside first size j)
    (same : i % size = j % size) : i = j := by
  wlog ordered : i ≤ j generalizing i j
  · exact (this hj hi same.symm (Nat.le_of_not_le ordered)).symm
  obtain ⟨above, -⟩ := hi
  obtain ⟨-, below⟩ := hj
  have multiple : (j - i) % size = 0 := Nat.sub_mod_eq_zero_of_mod_eq same.symm
  have small : j - i < size := by omega
  rw [Nat.mod_eq_of_lt small] at multiple
  omega

end Window
