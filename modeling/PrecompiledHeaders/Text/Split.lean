/-!
# Splitting and joining

A sequence is cut at every separator (`split`) and put together again with separators between
the pieces (`join`). The path module cuts at slashes, the readers of text cut at line ends.

* `join_split`: joining undoes splitting;
* `split_ne_nil`: there is always at least one piece.
-/

namespace PrecompiledHeaders

variable {α : Type} [DecidableEq α]

/-- The pieces of a sequence between the separators, empty ones included. -/
def split (separator : α) : List α → List (List α)
  | [] => [[]]
  | a :: rest =>
    if a = separator then [] :: split separator rest
    else match split separator rest with
      | [] => [[a]]
      | first :: others => (a :: first) :: others

/-- The pieces with one separator between each two. -/
def join (separator : α) : List (List α) → List α
  | [] => []
  | [piece] => piece
  | piece :: others => piece ++ separator :: join separator others

theorem split_ne_nil (separator : α) (l : List α) : split separator l ≠ [] := by
  cases l with
  | nil => simp [split]
  | cons a rest =>
    rw [split]
    split
    · simp
    · split <;> simp

omit [DecidableEq α] in
theorem join_cons_cons (separator : α) (a : α) (piece : List α) (others : List (List α)) :
    join separator ((a :: piece) :: others) = a :: join separator (piece :: others) := by
  cases others <;> simp [join]

/-- Joining undoes splitting. -/
theorem join_split (separator : α) (l : List α) : join separator (split separator l) = l := by
  induction l with
  | nil => simp [split, join]
  | cons a rest ih =>
    rw [split]
    split
    · next h =>
      subst h
      cases hs : split a rest with
      | nil => exact absurd hs (split_ne_nil _ _)
      | cons first others => rw [join, ← hs, ih]; simp; simp
    · cases hs : split separator rest with
      | nil => exact absurd hs (split_ne_nil _ _)
      | cons first others => rw [join_cons_cons, ← hs, ih]

end PrecompiledHeaders
