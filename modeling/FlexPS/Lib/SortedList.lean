import Mathlib

/-! # Cutting a sorted list

In a list sorted by a key, what lies below a bound is a prefix: walking on from
an index while the key is below the bound cuts the list as filtering by the key
does.
-/

namespace SortedList

variable {α : Type} {key : α → Nat} {xs : List α}

/-- `xs` does not decrease under `key`. -/
def Sorted (key : α → Nat) (xs : List α) : Prop := xs.Pairwise fun x y => key x ≤ key y

theorem Sorted.of_map {β : Type} {f : β → α} {xs : List β} (sorted : Sorted key (xs.map f)) :
    Sorted (key ∘ f) xs := by
  unfold Sorted at sorted
  rwa [List.pairwise_map] at sorted

theorem takeWhile_eq_filter (sorted : Sorted key xs) (bound : Nat) :
    xs.takeWhile (fun x => key x < bound) = xs.filter (fun x => key x < bound) := by
  induction xs with
  | nil => rfl
  | cons x xs ih =>
      obtain ⟨least, sorted⟩ := List.pairwise_cons.mp sorted
      cases Nat.lt_or_ge (key x) bound with
      | inl below => simp [below, ih sorted]
      | inr above =>
          have none_below : xs.filter (fun y => key y < bound) = [] := by
            apply List.filter_eq_nil_iff.mpr
            intro y member
            simpa using above.trans (least y member)
          simp [Nat.not_lt.mpr above, none_below]

theorem dropWhile_eq_filter (sorted : Sorted key xs) (bound : Nat) :
    xs.dropWhile (fun x => key x < bound) = xs.filter (fun x => bound ≤ key x) := by
  induction xs with
  | nil => rfl
  | cons x xs ih =>
      obtain ⟨least, sorted⟩ := List.pairwise_cons.mp sorted
      cases Nat.lt_or_ge (key x) bound with
      | inl below => simp [below, Nat.not_le.mpr below, ih sorted]
      | inr above =>
          have all_above : xs.filter (fun y => bound ≤ key y) = xs := by
            apply List.filter_eq_self.mpr
            intro y member
            simpa using above.trans (least y member)
          simp [Nat.not_lt.mpr above, above, all_above]

/-- Two neighbouring intervals of a sorted list are one interval. -/
theorem filter_append_filter (sorted : Sorted key xs) {first middle last : Nat}
    (lower : first ≤ middle) (upper : middle ≤ last) :
    xs.filter (fun x => first ≤ key x ∧ key x < middle) ++
        xs.filter (fun x => middle ≤ key x ∧ key x < last) =
      xs.filter (fun x => first ≤ key x ∧ key x < last) := by
  induction xs with
  | nil => rfl
  | cons x xs ih =>
      obtain ⟨least, sorted⟩ := List.pairwise_cons.mp sorted
      cases Nat.lt_or_ge (key x) middle with
      | inl below =>
          have same : (first ≤ key x ∧ key x < middle) ↔ (first ≤ key x ∧ key x < last) := by omega
          simp only [List.filter_cons, same, ← ih sorted, Nat.not_le.mpr below, false_and,
            decide_false]
          split <;> rfl
      | inr above =>
          have none_below : xs.filter (fun y => first ≤ key y ∧ key y < middle) = [] := by
            apply List.filter_eq_nil_iff.mpr
            intro y member
            have := least y member
            simp
            omega
          have same : (middle ≤ key x ∧ key x < last) ↔ (first ≤ key x ∧ key x < last) := by omega
          have rest := ih sorted
          rw [none_below, List.nil_append] at rest
          have not_here : ¬ (first ≤ key x ∧ key x < middle) := by omega
          simp only [List.filter_cons, same, not_here, decide_false, Bool.false_eq_true, if_false,
            none_below, List.nil_append, rest]

theorem take_length_takeWhile (p : α → Bool) (xs : List α) :
    xs.take (xs.takeWhile p).length = xs.takeWhile p :=
  (List.prefix_iff_eq_take.mp (List.takeWhile_prefix p)).symm

theorem drop_length_takeWhile (p : α → Bool) (xs : List α) :
    xs.drop (xs.takeWhile p).length = xs.dropWhile p := by
  have split : xs.takeWhile p ++ xs.drop (xs.takeWhile p).length =
      xs.takeWhile p ++ xs.dropWhile p := by
    rw [List.takeWhile_append_dropWhile]
    calc xs.takeWhile p ++ xs.drop (xs.takeWhile p).length
        = xs.take (xs.takeWhile p).length ++ xs.drop (xs.takeWhile p).length := by
          rw [take_length_takeWhile]
      _ = xs := List.take_append_drop _ _
  exact List.append_cancel_left split

/-- Where a walk from index `first` up to `bound` ends. -/
def cut (key : α → Nat) (xs : List α) (first bound : Nat) : Nat :=
  first + ((xs.drop first).takeWhile fun x => key x < bound).length

theorem cut_map {β : Type} (f : β → α) (xs : List β) (first bound : Nat) :
    cut key (xs.map f) first bound = cut (key ∘ f) xs first bound := by
  unfold cut
  simp [← List.map_drop, List.takeWhile_map, Function.comp_def]

theorem first_le_cut (first bound : Nat) : first ≤ cut key xs first bound := Nat.le_add_right _ _

theorem cut_le_length {first : Nat} (within : first ≤ xs.length) (bound : Nat) :
    cut key xs first bound ≤ xs.length := by
  have short := (List.takeWhile_sublist (fun x => decide (key x < bound)) (l := xs.drop first)).length_le
  rw [List.length_drop] at short
  unfold cut
  omega

theorem segment_cut (sorted : Sorted key xs) {first floor : Nat}
    (from_floor : xs.drop first = xs.filter (fun x => floor ≤ key x)) (bound : Nat) :
    (xs.take (cut key xs first bound)).drop first =
      xs.filter (fun x => floor ≤ key x ∧ key x < bound) := by
  have sorted' : Sorted key (xs.drop first) := sorted.sublist (List.drop_sublist _ _)
  calc (xs.take (cut key xs first bound)).drop first
      = (xs.drop first).take ((xs.drop first).takeWhile fun x => key x < bound).length := by
        simp [cut, List.drop_take]
    _ = (xs.drop first).takeWhile fun x => key x < bound := take_length_takeWhile _ _
    _ = (xs.filter fun x => floor ≤ key x).filter fun x => key x < bound := by
        rw [takeWhile_eq_filter sorted', from_floor]
    _ = xs.filter fun x => floor ≤ key x ∧ key x < bound := by
        simp [List.filter_filter, Bool.and_comm]

theorem drop_cut (sorted : Sorted key xs) {first floor : Nat}
    (from_floor : xs.drop first = xs.filter (fun x => floor ≤ key x)) (bound : Nat) :
    xs.drop (cut key xs first bound) = xs.filter (fun x => max floor bound ≤ key x) := by
  have sorted' : Sorted key (xs.drop first) := sorted.sublist (List.drop_sublist _ _)
  calc xs.drop (cut key xs first bound)
      = (xs.drop first).drop ((xs.drop first).takeWhile fun x => key x < bound).length := by
        simp [cut]
    _ = (xs.drop first).dropWhile fun x => key x < bound := drop_length_takeWhile _ _
    _ = (xs.filter fun x => floor ≤ key x).filter fun x => bound ≤ key x := by
        rw [dropWhile_eq_filter sorted', from_floor]
    _ = xs.filter fun x => max floor bound ≤ key x := by
        simp [List.filter_filter, Bool.and_comm]

end SortedList
