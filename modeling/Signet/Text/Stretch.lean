/-! # Stretches

A stretch is the longest front of a list whose items are all of one kind. It is told by its items
and by the first item behind it, which is of another kind.
-/

namespace Signet

variable {α : Type} {p : α → Bool} {front rest : List α}

/-- A stretch of items of one kind, up to the first of another. -/
theorem takeWhile_append (all : ∀ x ∈ front, p x = true) (ends : ∀ x ∈ rest.head?, p x = false) :
    (front ++ rest).takeWhile p = front := by
  rw [List.takeWhile_append_of_pos all]
  cases rest with
  | nil => simp
  | cons x rest => simp [ends x rfl]

theorem dropWhile_append (all : ∀ x ∈ front, p x = true) (ends : ∀ x ∈ rest.head?, p x = false) :
    (front ++ rest).dropWhile p = rest := by
  rw [List.dropWhile_append_of_pos all]
  cases rest with
  | nil => rfl
  | cons x rest => simp [ends x rfl]

/-- The first item behind a stretch is of another kind. -/
theorem eq_false_of_head?_dropWhile (p : α → Bool) (items : List α) :
    ∀ x ∈ (items.dropWhile p).head?, p x = false := by
  intro x first
  have stopped := List.head?_dropWhile_not p items
  rw [Option.mem_def.1 first] at stopped
  exact stopped

end Signet
