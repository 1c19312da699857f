import Mathlib

/-! # Rounds of a barrier

Finitely many parties enter and leave numbered rounds. `InStep` is what a barrier
owes them: a party leaves its `k`-th round only after every party entered its
`k`-th round. A barrier may decide that by counting: when nobody is more than
`k` rounds in, a total of `k` rounds for each party means that everyone is `k`
rounds in.
-/

namespace Rounds

variable {ι : Type} [DecidableEq ι]

/-- One more for `i`. -/
def bump (f : ι → Nat) (i : ι) : ι → Nat := Function.update f i (f i + 1)

@[simp] theorem bump_same (f : ι → Nat) (i : ι) : bump f i i = f i + 1 :=
  Function.update_self ..

theorem bump_of_ne {f : ι → Nat} {i j : ι} (other : j ≠ i) : bump f i j = f j :=
  Function.update_of_ne other ..

theorem bump_apply (f : ι → Nat) (i j : ι) : bump f i j = f j + if j = i then 1 else 0 := by
  cases decEq j i with
  | isTrue same => subst same; simp
  | isFalse other => simp [bump_of_ne other, other]

theorem le_bump (f : ι → Nat) (i j : ι) : f j ≤ bump f i j := by
  rw [bump_apply]
  exact Nat.le_add_right _ _

theorem sum_bump [Fintype ι] (f : ι → Nat) (i : ι) : ∑ j, bump f i j = (∑ j, f j) + 1 := by
  simp only [bump_apply, Finset.sum_add_distrib, Finset.sum_ite_eq', Finset.mem_univ, if_true]

/-- A sum after one summand changed. -/
theorem sum_update [Fintype ι] {α M : Type} [AddCommMonoid M] (g : α → M) (m : ι → α) (i : ι)
    (a : α) : ∑ j, g (Function.update m i a j) + g (m i) = ∑ j, g (m j) + g a := by
  rw [← Finset.add_sum_erase _ _ (Finset.mem_univ i),
    ← Finset.add_sum_erase _ (fun j => g (m j)) (Finset.mem_univ i)]
  have others : ∑ j ∈ Finset.univ.erase i, g (Function.update m i a j) =
      ∑ j ∈ Finset.univ.erase i, g (m j) := by
    apply Finset.sum_congr rfl
    intro j member
    rw [Function.update_of_ne (Finset.ne_of_mem_erase member)]
  rw [others, Function.update_self]
  abel

omit [DecidableEq ι] in
/-- At most one for each party and none for one of them is less than the number of parties. -/
theorem sum_lt_card [Fintype ι] {f : ι → Nat} (le_one : ∀ j, f j ≤ 1) {i : ι} (none : f i = 0) :
    ∑ j, f j < Fintype.card ι := by
  calc ∑ j, f j < ∑ _j : ι, 1 := by
        apply Finset.sum_lt_sum fun j _ => le_one j
        exact ⟨i, Finset.mem_univ i, by omega⟩
    _ = Fintype.card ι := by simp

/-- Nobody leaves a round that somebody has not entered. -/
structure InStep (entered returned : ι → Nat) : Prop where
  inside : ∀ i, returned i ≤ entered i
  one : ∀ i, entered i ≤ returned i + 1
  agreement : ∀ i j, returned i ≤ entered j

namespace InStep

variable {entered returned : ι → Nat}

omit [DecidableEq ι] in
theorem start : InStep (fun _ : ι => 0) (fun _ => 0) where
  inside _ := le_rfl
  one _ := by omega
  agreement _ _ := le_rfl

theorem enter (h : InStep entered returned) {i : ι} (outside : entered i = returned i) :
    InStep (bump entered i) returned where
  inside j := (h.inside j).trans (le_bump entered i j)
  one j := by
    rw [bump_apply]
    split
    · next same => subst same; omega
    · exact h.one j
  agreement j k := (h.agreement j k).trans (le_bump entered i k)

theorem leave (h : InStep entered returned) {i : ι} (all_entered : ∀ j, returned i + 1 ≤ entered j) :
    InStep entered (bump returned i) where
  inside j := by
    rw [bump_apply]
    split
    · next same => subst same; exact all_entered j
    · exact h.inside j
  one j := (h.one j).trans (Nat.add_le_add_right (le_bump returned i j) 1)
  agreement j k := by
    rw [bump_apply]
    split
    · next same => subst same; exact all_entered k
    · exact h.agreement j k

omit [DecidableEq ι] in
/-- Nobody is more than one round ahead. -/
theorem entered_le (h : InStep entered returned) (i j : ι) : entered j ≤ entered i + 1 :=
  (h.one j).trans (Nat.add_le_add_right (h.agreement j i) 1)

omit [DecidableEq ι] in
/-- What a counting barrier relies on. -/
theorem all_entered_of_sum [Fintype ι] (h : InStep entered returned) {i : ι}
    (enough : Fintype.card ι * (returned i + 1) ≤ ∑ j, entered j) (j : ι) :
    returned i + 1 ≤ entered j := by
  cases Classical.em (∃ m, returned i + 1 ≤ returned m) with
  | inl ahead =>
      obtain ⟨m, ahead⟩ := ahead
      exact ahead.trans (h.agreement m j)
  | inr nobody =>
      have bounded : ∀ m, entered m ≤ returned i + 1 := by
        intro m
        have := h.one m
        have : ¬ returned i + 1 ≤ returned m := fun ahead => nobody ⟨m, ahead⟩
        omega
      have total : ∑ m, entered m = ∑ _m : ι, (returned i + 1) := by
        apply le_antisymm (Finset.sum_le_sum fun m _ => bounded m)
        simpa using enough
      have equal := (Finset.sum_eq_sum_iff_of_le fun m _ => bounded m).mp total
      exact (equal j (Finset.mem_univ j)).ge

end InStep

end Rounds
