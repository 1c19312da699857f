import Mathlib.Data.List.Basic

/-! # Epochs in a stream

Some items of a FIFO stream renew the epoch of its reader, and some must be taken in
the epoch they belong to.
-/

namespace Epochs

variable {α ε : Type*} (renews : α → Option ε)

/-- The epoch after the items of `stream`. -/
def last : Option ε → List α → Option ε
  | epoch, [] => epoch
  | epoch, a :: stream => last ((renews a).or epoch) stream

/-- Every item that belongs to an epoch will be taken in it. -/
def Fits (needs : α → Option ε) : Option ε → List α → Prop
  | _, [] => True
  | epoch, a :: stream =>
      (∀ e, needs a = some e → epoch = some e) ∧ Fits needs ((renews a).or epoch) stream

variable {renews} {needs : α → Option ε} {epoch : Option ε} {xs ys : List α}

@[simp] theorem last_nil : last renews epoch [] = epoch := rfl

@[simp] theorem last_append : last renews epoch (xs ++ ys) = last renews (last renews epoch xs) ys := by
  induction xs generalizing epoch with
  | nil => rfl
  | cons x xs ih => exact ih

theorem last_of_forall (none : ∀ x ∈ xs, renews x = none) : last renews epoch xs = epoch := by
  induction xs generalizing epoch with
  | nil => rfl
  | cons x xs ih =>
      rw [last, none x List.mem_cons_self, Option.none_or]
      exact ih fun y mem => none y (List.mem_cons_of_mem _ mem)

@[simp] theorem fits_append : Fits renews needs epoch (xs ++ ys) ↔
    Fits renews needs epoch xs ∧ Fits renews needs (last renews epoch xs) ys := by
  induction xs generalizing epoch with
  | nil => simp [Fits]
  | cons x xs ih => simp [Fits, last, ih, and_assoc]

theorem fits_singleton {x : α} :
    Fits renews needs epoch [x] ↔ ∀ e, needs x = some e → epoch = some e := by
  simp [Fits]

end Epochs
