import PrecompiledHeaders.Proofs.Path.Absolute
import Mathlib.Data.List.Induction

/-!
# Lists of paths

What a list says about paths, however these are written: which normal forms it has
(`Path.IsListed`), and what is left of it when it is taken from a directory or when repeated paths
are left out. Both leave the normal forms as they are (`Path.isListed_dedup_iff`,
`Path.mem_map_normalizeFrom_iff`).
-/

namespace PrecompiledHeaders.Path

variable {base p q : Path} {paths others : List Path}

/-- Whether a list has a path with a normal form. -/
def IsListed (paths : List Path) (q : Path) : Prop := ∃ p ∈ paths, p.normalize = q

theorem not_isListed_iff : ¬IsListed paths q ↔ ∀ p ∈ paths, p.normalize ≠ q := by
  simp [IsListed]

theorem isListed_append_iff :
    IsListed (paths ++ others) q ↔ IsListed paths q ∨ IsListed others q := by
  simp only [IsListed, List.mem_append, or_and_right, exists_or]

/-! ### Paths that are the same -/

theorem isAmong_iff : p.isAmong paths = true ↔ ∃ q ∈ paths, Same q p := by
  simp [isAmong]

/-- Among normal paths, a normal path is found if it is there. -/
theorem IsNormal.isAmong_iff (hp : p.IsNormal) (h : ∀ q ∈ paths, q.IsNormal) :
    p.isAmong paths = true ↔ p ∈ paths := by
  rw [Path.isAmong_iff]
  constructor
  · rintro ⟨q, hq, hsame⟩
    exact ((h q hq).same_iff hp).1 hsame ▸ hq
  · intro hmem
    exact ⟨p, hmem, rfl⟩

theorem dedup_append_singleton (paths : List Path) (p : Path) : dedup (paths ++ [p]) =
    if p.isAmong (dedup paths) then dedup paths else dedup paths ++ [p] := by
  rw [dedup, List.foldl_append]
  rfl

theorem mem_of_mem_dedup (h : p ∈ dedup paths) : p ∈ paths := by
  -- Paths are taken in from the front, so the induction goes to the end.
  induction paths using List.reverseRecOn with
  | nil => exact h
  | append_singleton paths last ih =>
    rw [dedup_append_singleton] at h
    split at h
    · exact List.mem_append_left _ (ih h)
    · rcases List.mem_append.1 h with h | h
      · exact List.mem_append_left _ (ih h)
      · exact List.mem_append_right _ h

theorem exists_mem_dedup_same (h : p ∈ paths) : ∃ q ∈ dedup paths, Same q p := by
  induction paths using List.reverseRecOn with
  | nil => exact absurd h List.not_mem_nil
  | append_singleton paths last ih =>
    rw [dedup_append_singleton]
    rcases List.mem_append.1 h with h | h
    · obtain ⟨q, hq, hsame⟩ := ih h
      split
      · exact ⟨q, hq, hsame⟩
      · exact ⟨q, List.mem_append_left _ hq, hsame⟩
    · rw [List.mem_singleton.1 h]
      split
      · next hamong => exact isAmong_iff.1 hamong
      · exact ⟨last, by simp, rfl⟩

theorem isListed_dedup_iff : IsListed (dedup paths) q ↔ IsListed paths q := by
  constructor
  · rintro ⟨p, hp, heq⟩
    exact ⟨p, mem_of_mem_dedup hp, heq⟩
  · rintro ⟨p, hp, heq⟩
    obtain ⟨p', hp', hsame⟩ := exists_mem_dedup_same hp
    exact ⟨p', hp', hsame.normalize_eq.trans heq⟩

theorem mem_dedup_iff (h : ∀ q ∈ paths, q.IsNormal) : p ∈ dedup paths ↔ p ∈ paths := by
  refine ⟨mem_of_mem_dedup, fun hp => ?_⟩
  obtain ⟨q, hq, hsame⟩ := exists_mem_dedup_same hp
  exact ((h q (mem_of_mem_dedup hq)).same_iff (h p hp)).1 hsame ▸ hq

theorem dedup_eq_nil_iff : dedup paths = [] ↔ paths = [] := by
  constructor
  · intro h
    rw [List.eq_nil_iff_forall_not_mem]
    intro p hp
    obtain ⟨q, hq, -⟩ := exists_mem_dedup_same hp
    rw [h] at hq
    exact List.not_mem_nil hq
  · rintro rfl
    rfl

/-! ### Paths taken from a directory -/

theorem isNormal_of_mem_map (hb : base.isAbsolute) (hp : p ∈ paths.map base.normalizeFrom) :
    p.IsNormal := by
  obtain ⟨q, -, rfl⟩ := List.mem_map.1 hp
  exact isNormal_normalizeFrom hb q

/-- Absolute paths are the same from everywhere. -/
theorem mem_map_normalizeFrom_iff (h : ∀ p ∈ paths, p.isAbsolute = true) :
    q ∈ paths.map base.normalizeFrom ↔ IsListed paths q := by
  have hmap : paths.map base.normalizeFrom = paths.map normalize :=
    List.map_congr_left fun p hp => normalizeFrom_of_isAbsolute (h p hp)
  rw [hmap, List.mem_map]
  rfl

theorem map_normalizeFrom_of_isNormal (h : ∀ p ∈ paths, p.IsNormal) :
    paths.map base.normalizeFrom = paths := by
  refine (List.map_congr_left fun p hp => ?_).trans (List.map_id paths)
  exact (h p hp).normalizeFrom_eq base

end PrecompiledHeaders.Path
