import Mathlib.Data.List.Basic

/-! # Lines of a text that is cut into pieces

A piece owns the lines that start behind its separators, and needs the text behind it
to finish the last of them. With the line at the start of the text, every line has
one owner.
-/

namespace Lines

variable {α : Type*} [DecidableEq α] {sep : α}

/-- The line at the start of a text. -/
def lineAt (sep : α) (text : List α) : List α := text.takeWhile (· ≠ sep)

/-- The lines that start behind a separator of `piece`, when `rest` follows. -/
def owned (sep : α) : List α → List α → List (List α)
  | [], _ => []
  | c :: piece, rest =>
      if c = sep then lineAt sep (piece ++ rest) :: owned sep piece rest else owned sep piece rest

section Owned

variable {text piece rest : List α}

theorem lineAt_cons_sep : lineAt sep (sep :: text) = [] := by
  simp [lineAt]

theorem lineAt_append_of_not_mem (absent : sep ∉ piece) :
    lineAt sep (piece ++ rest) = piece ++ lineAt sep rest := by
  induction piece with
  | nil => rfl
  | cons c piece ih =>
      obtain ⟨differs, absent⟩ := not_or.mp (mt List.mem_cons.mpr absent)
      simpa [lineAt, Ne.symm differs] using ih absent

theorem lineAt_append_sep (absent : sep ∉ piece) : lineAt sep (piece ++ sep :: rest) = piece := by
  rw [lineAt_append_of_not_mem absent, lineAt_cons_sep, List.append_nil]

theorem owned_of_not_mem (absent : sep ∉ piece) : owned sep piece rest = [] := by
  induction piece with
  | nil => rfl
  | cons c piece ih =>
      obtain ⟨differs, absent⟩ := not_or.mp (mt List.mem_cons.mpr absent)
      simpa [owned, Ne.symm differs] using ih absent

theorem owned_append (piece later rest : List α) :
    owned sep (piece ++ later) rest = owned sep piece (later ++ rest) ++ owned sep later rest := by
  induction piece with
  | nil => rfl
  | cons c piece ih =>
      by_cases same : c = sep <;> simp [owned, same, ih]

/-- Behind text without a separator, the first separator starts the first line of a piece. -/
theorem owned_append_sep (absent : sep ∉ piece) (later rest : List α) :
    owned sep (piece ++ sep :: later) rest = lineAt sep (later ++ rest) :: owned sep later rest := by
  simp [owned_append, owned_of_not_mem absent, owned]

theorem splitOn_eq (text : List α) :
    text.splitOn sep = lineAt sep text :: owned sep text [] := by
  induction text with
  | nil => rfl
  | cons c text ih =>
      rw [List.splitOn_eq_splitOnP] at ih ⊢
      by_cases same : c = sep
      · simp [List.splitOnP_cons_eq_if_modifyHead, same, ih, owned, lineAt]
      · simp [List.splitOnP_cons_eq_if_modifyHead, same, ih, owned, lineAt]

/-- A text whose pieces all have length `size` is what its pieces own together. -/
theorem flatMap_owned (text : List α) (size n : Nat) :
    (List.range n).flatMap (fun i =>
        owned sep ((text.drop (i * size)).take size) (text.drop (i * size + size))) =
      owned sep (text.take (n * size)) (text.drop (n * size)) := by
  induction n with
  | zero => simp [owned]
  | succ n ih =>
      have text_eq : text.drop (n * size) =
          (text.drop (n * size)).take size ++ text.drop (n * size + size) := by
        rw [← List.drop_drop, List.take_append_drop]
      rw [List.range_succ, List.flatMap_append, ih, Nat.succ_mul, List.take_add, owned_append,
        ← text_eq, List.flatMap_singleton]

theorem flatMap_owned_of_le {text : List α} {size n : Nat} (covers : text.length ≤ n * size) :
    (List.range n).flatMap (fun i =>
        owned sep ((text.drop (i * size)).take size) (text.drop (i * size + size))) =
      owned sep text [] := by
  rw [flatMap_owned, List.take_of_length_le covers, List.drop_of_length_le covers]

end Owned

end Lines
