import PrecompiledHeaders.Text.Split

/-!
# Pieces between separators

Pieces hold no separator (`not_mem_of_mem_split`), and a sequence that is put together from such
pieces is cut into these again (`split_flatMap`).
-/

namespace PrecompiledHeaders

variable {α : Type} [DecidableEq α] {separator : α}

theorem split_separator_cons (l : List α) :
    split separator (separator :: l) = [] :: split separator l := by
  rw [split, if_pos rfl]

/-- Anything but a separator goes into the first piece. -/
theorem split_cons_of_ne {a : α} (ha : a ≠ separator) (l : List α) : ∃ first others,
    split separator l = first :: others ∧ split separator (a :: l) = (a :: first) :: others := by
  cases hs : split separator l with
  | nil => exact absurd hs (split_ne_nil separator l)
  | cons first others => exact ⟨first, others, rfl, by rw [split, if_neg ha, hs]⟩

/-- What holds no separator goes into the first piece. -/
theorem split_append {piece : List α} (hp : separator ∉ piece) (l : List α) : ∃ first others,
    split separator l = first :: others ∧
      split separator (piece ++ l) = (piece ++ first) :: others := by
  induction piece with
  | nil =>
    cases hs : split separator l with
    | nil => exact absurd hs (split_ne_nil separator l)
    | cons first others => exact ⟨first, others, rfl, hs⟩
  | cons a piece ih =>
    rw [List.mem_cons, not_or] at hp
    obtain ⟨first, others, hl, hpiece⟩ := ih hp.2
    -- What is in front of the rest of the piece goes into the same first piece.
    obtain ⟨first', others', hl', hcons⟩ := split_cons_of_ne (Ne.symm hp.1) (piece ++ l)
    rw [hpiece] at hl'
    cases hl'
    exact ⟨first, others, hl, hcons⟩

/-- What holds no separator is one piece. -/
theorem split_of_not_mem {piece : List α} (hp : separator ∉ piece) :
    split separator piece = [piece] := by
  obtain ⟨first, others, hl, hsplit⟩ := split_append hp []
  cases hl
  rwa [List.append_nil] at hsplit

/-- What stands in front of a separator and what stands behind it are cut apart. -/
theorem split_append_cons (l l' : List α) :
    split separator (l ++ separator :: l') = split separator l ++ split separator l' := by
  induction l with
  | nil => exact split_separator_cons l'
  | cons a l ih =>
    by_cases ha : a = separator
    · rw [ha, List.cons_append, split_separator_cons, split_separator_cons, ih]
      rfl
    · obtain ⟨first, others, hl, hcons⟩ := split_cons_of_ne ha l
      obtain ⟨first', others', hl', hcons'⟩ := split_cons_of_ne ha (l ++ separator :: l')
      -- The first piece of the whole is that of the front.
      rw [ih, hl, List.cons_append] at hl'
      cases hl'
      rw [List.cons_append, hcons', hcons]
      rfl

/-- What holds no separator, with one behind it, is a piece. -/
theorem split_append_separator {piece : List α} (hp : separator ∉ piece) (l : List α) :
    split separator (piece ++ separator :: l) = piece :: split separator l := by
  rw [split_append_cons, split_of_not_mem hp]
  rfl

/-- Separators in front of a sequence cut off empty pieces. -/
theorem split_replicate_append (count : Nat) (l : List α) :
    split separator (List.replicate count separator ++ l) =
      List.replicate count [] ++ split separator l := by
  induction count with
  | zero => rfl
  | succ count ih =>
    rw [List.replicate_succ, List.cons_append, split_separator_cons, ih]
    rfl

/-- Pieces with a separator in front of each are cut into themselves. -/
theorem split_flatMap {pieces : List (List α)} (hp : ∀ piece ∈ pieces, separator ∉ piece) :
    split separator (pieces.flatMap (separator :: ·)) = [] :: pieces := by
  induction pieces with
  | nil => rfl
  | cons piece pieces ih =>
    have hnot := hp piece List.mem_cons_self
    have hrest := ih fun other ho => hp other (List.mem_cons_of_mem _ ho)
    rw [List.flatMap_cons, List.cons_append, split_separator_cons]
    obtain ⟨first, others, hfirst, hsplit⟩ := split_append hnot (pieces.flatMap (separator :: ·))
    rw [hrest] at hfirst
    cases hfirst
    rw [hsplit, List.append_nil]

theorem not_mem_of_mem_split {l piece : List α} (h : piece ∈ split separator l) :
    separator ∉ piece := by
  induction l generalizing piece with
  | nil =>
    rw [split, List.mem_singleton] at h
    rw [h]
    exact List.not_mem_nil
  | cons a l ih =>
    by_cases ha : a = separator
    · rw [ha, split_separator_cons, List.mem_cons] at h
      rcases h with rfl | h
      · exact List.not_mem_nil
      · exact ih h
    · obtain ⟨first, others, hl, hcons⟩ := split_cons_of_ne ha l
      rw [hl] at ih
      rw [hcons, List.mem_cons] at h
      rcases h with rfl | h
      · rw [List.mem_cons, not_or]
        exact ⟨Ne.symm ha, ih List.mem_cons_self⟩
      · exact ih (List.mem_cons_of_mem _ h)

/-- What is in a piece is in what was split. -/
theorem mem_of_mem_split {a : α} {l piece : List α} (h : piece ∈ split separator l)
    (ha : a ∈ piece) : a ∈ l := by
  induction l generalizing piece with
  | nil =>
    rw [split, List.mem_singleton] at h
    rwa [h] at ha
  | cons b l ih =>
    by_cases hb : b = separator
    · rw [hb, split_separator_cons, List.mem_cons] at h
      rcases h with rfl | h
      · exact absurd ha List.not_mem_nil
      · exact List.mem_cons_of_mem _ (ih h ha)
    · obtain ⟨first, others, hl, hcons⟩ := split_cons_of_ne hb l
      rw [hl] at ih
      rw [hcons, List.mem_cons] at h
      rcases h with rfl | h
      · rcases List.mem_cons.1 ha with rfl | ha
        · exact List.mem_cons_self
        · exact List.mem_cons_of_mem _ (ih List.mem_cons_self ha)
      · exact List.mem_cons_of_mem _ (ih (List.mem_cons_of_mem _ h) ha)

omit [DecidableEq α] in
/-- Joining puts a separator in front of each piece but the first. -/
theorem join_cons (piece : List α) (others : List (List α)) :
    join separator (piece :: others) = piece ++ others.flatMap (separator :: ·) := by
  induction others generalizing piece with
  | nil => simp [join]
  | cons other others ih => rw [join, ih, List.flatMap_cons, List.cons_append]; simp

omit [DecidableEq α] in
/-- What is joined last stands behind a separator. -/
theorem join_concat {pieces : List (List α)} (h : pieces ≠ []) (last : List α) :
    join separator (pieces ++ [last]) = join separator pieces ++ separator :: last := by
  obtain ⟨piece, others, rfl⟩ := List.exists_cons_of_ne_nil h
  rw [List.cons_append, join_cons, join_cons, List.flatMap_append, List.append_assoc]
  simp

omit [DecidableEq α] in
theorem exists_join_concat (separator : α) (pieces : List (List α)) (last : List α) :
    ∃ front, join separator (pieces ++ [last]) = front ++ last := by
  by_cases h : pieces = []
  · exact ⟨[], by rw [h]; rfl⟩
  · exact ⟨join separator pieces ++ [separator], by rw [join_concat h, List.append_assoc]; rfl⟩

/-- Splitting undoes joining. -/
theorem split_join {pieces : List (List α)} (hne : pieces ≠ [])
    (hp : ∀ piece ∈ pieces, separator ∉ piece) : split separator (join separator pieces) = pieces := by
  obtain ⟨piece, others, rfl⟩ := List.exists_cons_of_ne_nil hne
  have hrest := split_flatMap fun other ho => hp other (List.mem_cons_of_mem _ ho)
  obtain ⟨first, rest, hfirst, hsplit⟩ :=
    split_append (hp piece List.mem_cons_self) (others.flatMap (separator :: ·))
  rw [hrest] at hfirst
  cases hfirst
  rw [join_cons, hsplit, List.append_nil]

end PrecompiledHeaders
