import Mathlib

/-! # Marks in a list

Some items of a list are marks. `upTo n` is the part that ends with the `n`-th mark, or all of a
list with fewer marks.
-/

namespace Marks

variable {α β : Type} (mark : α → Bool)

def upTo : Nat → List α → List α
  | 0, _ => []
  | _ + 1, [] => []
  | n + 1, a :: rest => a :: upTo (if mark a then n else n + 1) rest

variable {mark} {n : Nat} {xs ys : List α}

@[simp] theorem upTo_zero : upTo mark 0 xs = [] := by
  cases xs <;> rfl

@[simp] theorem upTo_nil : upTo mark n [] = [] := by
  cases n <;> rfl

theorem upTo_append : upTo mark n (xs ++ ys) = upTo mark n xs ++ upTo mark (n - xs.countP mark) ys := by
  induction xs generalizing n with
  | nil => simp
  | cons a rest ih =>
      cases n with
      | zero => simp
      | succ n =>
          cases marked : mark a with
          | true => simp [upTo, marked, ih]
          | false => simp [upTo, marked, ih]

theorem upTo_prefix : upTo mark n xs <+: xs := by
  induction xs generalizing n with
  | nil => simp
  | cons a rest ih =>
      cases n with
      | zero => simp
      | succ n => exact List.cons_prefix_cons.mpr ⟨rfl, ih⟩

/-- A list with fewer marks. -/
theorem upTo_of_lt (fewer : xs.countP mark < n) : upTo mark n xs = xs := by
  induction xs generalizing n with
  | nil => exact upTo_nil
  | cons a rest ih =>
      obtain ⟨n, rfl⟩ : ∃ m, n = m + 1 := ⟨n - 1, by omega⟩
      cases marked : mark a with
      | true =>
          rw [List.countP_cons_of_pos marked] at fewer
          rw [upTo, marked, if_pos rfl, ih (by omega)]
      | false =>
          rw [List.countP_cons_of_neg (by simp [marked])] at fewer
          rw [upTo, marked, if_neg (by simp), ih fewer]

/-- What comes after the mark. -/
theorem upTo_append_of_le (reached : n ≤ xs.countP mark) : upTo mark n (xs ++ ys) = upTo mark n xs := by
  rw [upTo_append, Nat.sub_eq_zero_of_le reached, upTo_zero, List.append_nil]

theorem upTo_snoc {a : α} :
    upTo mark n (xs ++ [a]) = upTo mark n xs ++ if xs.countP mark < n then [a] else [] := by
  rw [upTo_append]
  split
  next fewer =>
    obtain ⟨k, more⟩ : ∃ k, n - xs.countP mark = k + 1 := ⟨n - xs.countP mark - 1, by omega⟩
    rw [more]
    simp [upTo]
  next reached => rw [Nat.sub_eq_zero_of_le (Nat.le_of_not_lt reached), upTo_zero]

section Images

variable {mark' : β → Bool} {f : α → Option β} (agree : ∀ a, (f a).any mark' = mark a)
include agree

theorem countP_filterMap : (xs.filterMap f).countP mark' = xs.countP mark := by
  induction xs with
  | nil => rfl
  | cons a rest ih =>
      have here := agree a
      cases image : f a with
      | none =>
          rw [image, Option.any_none] at here
          rw [List.filterMap_cons_none image, ih, List.countP_cons_of_neg (by simp [← here])]
      | some b =>
          rw [image, Option.any_some] at here
          rw [List.filterMap_cons_some image, List.countP_cons, ih, here, List.countP_cons]

/-- The image of a list has its marks in the same places. -/
theorem upTo_filterMap : upTo mark' n (xs.filterMap f) = (upTo mark n xs).filterMap f := by
  induction xs generalizing n with
  | nil => simp
  | cons a rest ih =>
      cases n with
      | zero => simp
      | succ n =>
          have here := agree a
          cases image : f a with
          | none =>
              rw [image, Option.any_none] at here
              rw [upTo, ← here, List.filterMap_cons_none image, List.filterMap_cons_none image,
                if_neg Bool.false_ne_true, ih]
          | some b =>
              rw [image, Option.any_some] at here
              rw [upTo, List.filterMap_cons_some image, List.filterMap_cons_some image, upTo, here, ih]

end Images

end Marks
