import Mathlib

/-! # Gathering at most one item from each party

What a list of parties has handed over so far is one list. When no party hands over twice,
the list is as long as there are parties exactly when each has handed over its item.
-/

namespace Gather

variable {ι α : Type} {parties : List ι} {handed handed' : ι → List α}

/-- One more item, whatever the order of the parties. -/
theorem flatMap_arrival (distinct : parties.Nodup) {i : ι} (member : i ∈ parties) {a : α}
    (here : handed' i = handed i ++ [a]) (elsewhere : ∀ j ∈ parties, j ≠ i → handed' j = handed j) :
    (parties.flatMap handed').Perm (parties.flatMap handed ++ [a]) := by
  induction parties with
  | nil => cases member
  | cons j rest ih =>
      obtain ⟨notLater, distinct⟩ := List.nodup_cons.mp distinct
      rw [List.flatMap_cons, List.flatMap_cons]
      cases member with
      | head =>
          have same : rest.flatMap handed' = rest.flatMap handed := by
            rw [List.flatMap_def, List.flatMap_def]
            refine congrArg List.flatten (List.map_congr_left fun j later => ?_)
            exact elsewhere j (List.mem_cons_of_mem _ later) fun same => notLater (same ▸ later)
          rw [here, same, List.append_assoc, List.append_assoc]
          exact List.perm_append_comm.append_left _
      | tail _ later =>
          have apart : j ≠ i := fun same => notLater (same ▸ later)
          rw [elsewhere j List.mem_cons_self apart, List.append_assoc]
          exact (ih distinct later fun k inRest =>
            elsewhere k (List.mem_cons_of_mem _ inRest)).append_left _

theorem length_le (once : ∀ i ∈ parties, (handed i).length ≤ 1) :
    (parties.flatMap handed).length ≤ parties.length := by
  induction parties with
  | nil => exact Nat.le_refl _
  | cons i rest ih =>
      obtain ⟨first, later⟩ := List.forall_mem_cons.mp once
      have := ih later
      rw [List.flatMap_cons, List.length_append, List.length_cons]
      omega

theorem length_eq (each : ∀ i ∈ parties, (handed i).length = 1) :
    (parties.flatMap handed).length = parties.length := by
  induction parties with
  | nil => rfl
  | cons i rest ih =>
      obtain ⟨first, later⟩ := List.forall_mem_cons.mp each
      rw [List.flatMap_cons, List.length_append, List.length_cons, ih later, first, Nat.add_comm]

/-- As many items as parties: each has handed over its own. -/
theorem complete (once : ∀ i ∈ parties, (handed i).length ≤ 1)
    (all : (parties.flatMap handed).length = parties.length) :
    List.Forall₂ (fun i a => handed i = [a]) parties (parties.flatMap handed) := by
  induction parties with
  | nil => exact .nil
  | cons i rest ih =>
      obtain ⟨first, later⟩ := List.forall_mem_cons.mp once
      have short := length_le later
      rw [List.flatMap_cons, List.length_append, List.length_cons] at all
      obtain ⟨a, item⟩ := List.length_eq_one_iff.mp (by omega : (handed i).length = 1)
      rw [List.flatMap_cons, item, List.singleton_append]
      exact .cons item (ih later (by omega))

/-- Each party has an item. -/
theorem item_of_mem {R : ι → α → Prop} {items : List α} (each : List.Forall₂ R parties items) {i : ι}
    (member : i ∈ parties) : ∃ a ∈ items, R i a := by
  induction each with
  | nil => cases member
  | cons here _ ih =>
      cases member with
      | head => exact ⟨_, List.mem_cons_self, here⟩
      | tail _ later =>
          obtain ⟨a, inRest, related⟩ := ih later
          exact ⟨a, List.mem_cons_of_mem _ inRest, related⟩

/-- What is known of each party's item with some value, as one assignment of values. -/
theorem assign [DecidableEq ι] {β : Type} [Inhabited β] {R : ι → α → β → Prop} {items : List α}
    (distinct : parties.Nodup) (each : List.Forall₂ (fun i a => ∃ b, R i a b) parties items) :
    ∃ value : ι → β, List.Forall₂ (fun i a => R i a (value i)) parties items := by
  induction each with
  | nil => exact ⟨fun _ => default, .nil⟩
  | @cons i a rest items here _ ih =>
      obtain ⟨notLater, distinct⟩ := List.nodup_cons.mp distinct
      obtain ⟨b, known⟩ := here
      obtain ⟨value, later⟩ := ih distinct
      refine ⟨Function.update value i b, .cons (by rw [Function.update_self]; exact known) ?_⟩
      refine ((List.forall₂_and_left _ _).mpr ⟨fun _ inRest => inRest, later⟩).imp ?_
      rintro j a' ⟨inRest, known'⟩
      rw [Function.update_of_ne (by rintro rfl; exact notLater inRest)]
      exact known'

end Gather
