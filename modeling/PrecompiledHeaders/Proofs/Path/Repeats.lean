import PrecompiledHeaders.Proofs.Path.Lists
import Mathlib.Data.List.Basic

/-!
# Repeated paths

`Path.dedup` leaves each path where it comes first, and as it is written there
(`Path.mem_dedup_iff_isFirst`): it is `List.eraseDupsBy` for paths that are the same
(`Path.dedup_eq_eraseDupsBy`). No two of the paths that are left are the same (`Path.pairwise_dedup`),
and no path is lost (`Path.isAmong_dedup`).

Repeats may be left out of the two halves of a list first, and then of what is left of both
(`Path.dedup_append_dedup`).
-/

namespace PrecompiledHeaders.Path

variable {p q : Path} {paths others : List Path}

theorem isAmong_append (p : Path) (paths others : List Path) :
    p.isAmong (paths ++ others) = (p.isAmong paths || p.isAmong others) :=
  List.any_append

theorem isAmong_of_mem (h : p ∈ paths) : p.isAmong paths = true :=
  isAmong_iff.2 ⟨p, h, rfl⟩

/-- Leaving out repeats loses no path. -/
theorem isAmong_dedup (p : Path) (paths : List Path) :
    p.isAmong (dedup paths) = p.isAmong paths := by
  rw [Bool.eq_iff_iff, isAmong_iff, isAmong_iff]
  constructor
  · rintro ⟨q, hq, hsame⟩
    exact ⟨q, mem_of_mem_dedup hq, hsame⟩
  · rintro ⟨q, hq, hsame⟩
    obtain ⟨first, hfirst, hsame'⟩ := exists_mem_dedup_same hq
    exact ⟨first, hfirst, Eq.trans hsame' hsame⟩

/-- No path is left twice. -/
theorem pairwise_dedup (paths : List Path) : (dedup paths).Pairwise fun p q => ¬Same p q := by
  induction paths using List.reverseRecOn with
  | nil => exact .nil
  | append_singleton paths last ih =>
    rw [dedup_append_singleton]
    split
    · exact ih
    · next hnew =>
      rw [List.pairwise_append]
      refine ⟨ih, List.pairwise_singleton _ last, fun p hp q hq hsame => ?_⟩
      rw [List.mem_singleton.1 hq] at hsame
      exact hnew (isAmong_iff.2 ⟨p, hp, hsame⟩)

/-! ### Where paths come first -/

/-- Whether a path stands in a list where no path in front of it is the same. -/
def IsFirst (paths : List Path) (p : Path) : Prop :=
  ∃ front behind, paths = front ++ p :: behind ∧ ∀ q ∈ front, ¬Same q p

theorem not_isFirst_nil : ¬IsFirst [] p := by
  rintro ⟨front, behind, heq, -⟩
  exact List.append_ne_nil_of_right_ne_nil front (List.cons_ne_nil p behind) heq.symm

theorem isFirst_concat_iff {last : Path} : IsFirst (paths ++ [last]) p ↔
    IsFirst paths p ∨ p = last ∧ last.isAmong paths = false := by
  have hnew : last.isAmong paths = false ↔ ∀ q ∈ paths, ¬Same q last := by
    rw [← Bool.not_eq_true, isAmong_iff]
    push Not
    rfl
  rw [hnew]
  constructor
  · rintro ⟨front, behind, heq, hfront⟩
    rcases List.eq_nil_or_concat' behind with rfl | ⟨others, final, rfl⟩
    · obtain ⟨rfl, hlast⟩ := List.append_inj' heq rfl
      rw [List.singleton_inj.1 hlast]
      exact .inr ⟨rfl, List.singleton_inj.1 hlast ▸ hfront⟩
    · rw [← List.cons_append, ← List.append_assoc] at heq
      exact .inl ⟨front, others, (List.append_inj' heq rfl).1, hfront⟩
  · rintro (⟨front, behind, rfl, hfront⟩ | ⟨rfl, hfront⟩)
    · exact ⟨front, behind ++ [last], by simp, hfront⟩
    · exact ⟨paths, [], rfl, hfront⟩

/-- What is left are the paths that come first, as they are written there. -/
theorem mem_dedup_iff_isFirst : p ∈ dedup paths ↔ IsFirst paths p := by
  induction paths using List.reverseRecOn with
  | nil => exact iff_of_false List.not_mem_nil not_isFirst_nil
  | append_singleton paths last ih =>
    rw [dedup_append_singleton, isFirst_concat_iff, ← ih, isAmong_dedup]
    cases hseen : last.isAmong paths with
    | true => simp
    | false => simp

/-- Repeats are left out as the library does it. -/
theorem dedup_eq_eraseDupsBy (paths : List Path) :
    dedup paths = paths.eraseDupsBy fun p q => Same q p := by
  -- The library holds what is left with the last one first.
  have hloop (paths kept : List Path) :
      paths.foldl (fun kept p => if p.isAmong kept then kept else kept ++ [p]) kept =
        List.eraseDupsBy.loop (fun p q => decide (Same q p)) paths kept.reverse := by
    induction paths generalizing kept with
    | nil => exact (List.reverse_reverse kept).symm
    | cons p rest ih =>
      have hseen : kept.reverse.any (fun q => decide (Same q p)) = p.isAmong kept :=
        List.any_reverse
      rw [List.foldl_cons, List.eraseDupsBy.loop, hseen, ih]
      cases p.isAmong kept with
      | true => rfl
      | false => exact congrArg _ (List.reverse_concat ..)
  exact hloop paths []

/-! ### Lists in parts -/

theorem dedup_append_dedup_right (paths others : List Path) :
    dedup (paths ++ dedup others) = dedup (paths ++ others) := by
  induction others using List.reverseRecOn with
  | nil => rfl
  | append_singleton others last ih =>
    rw [dedup_append_singleton others, ← List.append_assoc, dedup_append_singleton (paths ++ others)]
    cases hseen : last.isAmong (dedup others) with
    | true =>
      -- What repeats within the second list repeats in the whole.
      have hwhole : last.isAmong (dedup (paths ++ others)) = true := by
        rw [isAmong_dedup] at hseen
        rw [isAmong_dedup, isAmong_append, hseen, Bool.or_true]
      rw [if_pos rfl, if_pos hwhole, ih]
    | false =>
      rw [if_neg Bool.false_ne_true, ← List.append_assoc, dedup_append_singleton, ih]

theorem dedup_append_dedup_left (paths others : List Path) :
    dedup (dedup paths ++ others) = dedup (paths ++ others) := by
  induction others using List.reverseRecOn with
  | nil =>
    rw [List.append_nil, List.append_nil]
    exact dedup_append_dedup_right [] paths
  | append_singleton others last ih =>
    rw [← List.append_assoc, ← List.append_assoc, dedup_append_singleton, dedup_append_singleton, ih]

/-- Repeats may be left out of two lists before they are put together. -/
theorem dedup_append_dedup (paths others : List Path) :
    dedup (dedup paths ++ dedup others) = dedup (paths ++ others) := by
  rw [dedup_append_dedup_right, dedup_append_dedup_left]

end PrecompiledHeaders.Path
