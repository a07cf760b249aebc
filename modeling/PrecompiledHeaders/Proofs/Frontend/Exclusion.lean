import PrecompiledHeaders.Frontend.Process
import PrecompiledHeaders.Proofs.FileTree.Identity
import PrecompiledHeaders.Proofs.Frontend.Preprocess

/-!
# Headers that are excluded

Both frontends list headers as normal paths, and no file twice (`IsListing`). A header is known by
its identity, so it does not matter under which path a file is excluded. But excluded paths are
normalised before they are resolved. So what is kept out is the identity of the normal form, and
that of the path itself unless it turns back behind a link (`FileTree.KeptOut`).
-/

namespace PrecompiledHeaders

open PrecompiledHeaders.Path

variable {tree after : FileTree} {directory header excludedPath p : Path}
  {excluded seen paths : List Path}

/-- Whether the identity of a header is not that of an excluded path, which is taken from a
    directory. -/
structure FileTree.KeptOut (tree : FileTree) (directory excluded header : Path) : Prop where
  normalized : tree.identity header ≠ tree.identity (directory.normalizeFrom excluded)
  written : ¬tree.TurnsBack (directory.join excluded) →
    tree.identity header ≠ tree.identity (directory.join excluded)

theorem FileTree.keptOut_of_ne (hd : directory.isAbsolute) (hheader : header.IsNormal)
    (hne : tree.identity header ≠ tree.identity (directory.normalizeFrom excludedPath)) :
    tree.KeptOut directory excludedPath header where
  normalized := hne
  written hturns heq :=
    hturns (turnsBack_of_identity_eq (isAbsolute_join hd excludedPath) hheader heq hne)

/-- Whether headers are normal paths, each file is listed once, and all that is excluded is kept
    out. -/
structure IsListing (tree : FileTree) (directory : Path) (excluded headers : List Path) : Prop where
  isNormal : ∀ header ∈ headers, header.IsNormal
  distinct : headers.Pairwise fun header other => tree.identity header ≠ tree.identity other
  keptOut : ∀ header ∈ headers, ∀ e ∈ excluded, tree.KeptOut directory e header

/-! ### Header traces -/

namespace HeaderTrace

/-- What is visible was listed, and is not excluded. -/
theorem of_mem_visible {isExcluded : Path → Bool} {hidden : Option Nat} {listed : List (Nat × Path)}
    (h : p ∈ visible isExcluded hidden listed) :
    p ∈ listed.map Prod.snd ∧ isExcluded p = false := by
  induction listed generalizing hidden with
  | nil => exact absurd h List.not_mem_nil
  | cons first rest ih =>
    have hrest {hidden : Option Nat} (h : p ∈ visible isExcluded hidden rest) :=
      (ih h).imp_left (List.mem_cons_of_mem first.2)
    obtain ⟨depth, path⟩ := first
    rw [visible] at h
    split at h
    · exact hrest h
    split at h
    · exact hrest h
    next hnot =>
    rcases List.mem_cons.1 h with rfl | h
    · exact ⟨List.mem_cons_self, Bool.eq_false_iff.2 hnot⟩
    · exact hrest h

theorem of_mem_distinct (h : p ∈ distinct tree seen paths) :
    p ∈ paths ∧ tree.identity p ∉ seen := by
  induction paths generalizing seen with
  | nil => exact absurd h List.not_mem_nil
  | cons path rest ih =>
    rw [distinct] at h
    split at h
    · exact (ih h).imp_left (List.mem_cons_of_mem path)
    next hnew =>
    rcases List.mem_cons.1 h with rfl | h
    · exact ⟨List.mem_cons_self, hnew⟩
    · exact ⟨List.mem_cons_of_mem path (ih h).1, fun hin => (ih h).2 (List.mem_cons_of_mem _ hin)⟩

theorem pairwise_identity_distinct (tree : FileTree) (seen paths : List Path) :
    (distinct tree seen paths).Pairwise fun p q => tree.identity p ≠ tree.identity q := by
  induction paths generalizing seen with
  | nil => exact .nil
  | cons path rest ih =>
    rw [distinct]
    split
    · exact ih seen
    · -- From the path on, its identity counts as seen.
      refine .cons (fun q hq heq => ?_) (ih _)
      exact (of_mem_distinct hq).2 (heq ▸ List.mem_cons_self)

theorem of_mem_headers (hd : directory.isAbsolute) {identities : List Path} {trace : List Char}
    (h : header ∈ headers tree directory identities trace) :
    header.IsNormal ∧ tree.identity header ∉ identities := by
  obtain ⟨hlisted, hnot⟩ := of_mem_visible (of_mem_distinct h).1
  obtain ⟨⟨depth, path⟩, hmem, rfl⟩ := List.mem_map.1 hlisted
  obtain ⟨mention, -, heq⟩ := List.mem_map.1 hmem
  cases heq
  exact ⟨isNormal_normalizeFrom hd _, decide_eq_false_iff_not.1 hnot⟩

theorem isListing_headers (tree : FileTree) (hd : directory.isAbsolute) (excluded : List Path)
    (trace : List Char) : IsListing tree directory excluded (headers tree directory
      (excluded.map fun p => tree.identity (directory.normalizeFrom p)) trace) where
  isNormal _ h := (of_mem_headers hd h).1
  distinct := pairwise_identity_distinct tree _ _
  keptOut header h e he := by
    obtain ⟨hnormal, hnot⟩ := of_mem_headers hd h
    refine FileTree.keptOut_of_ne hd hnormal fun heq => ?_
    rw [heq] at hnot
    exact hnot (List.mem_map_of_mem (f := fun p => tree.identity (directory.normalizeFrom p)) he)

end HeaderTrace

/-! ### Frontends -/

namespace Scan

variable {compiler : String} {arguments : List String} {found : Preprocessed}

theorem isListing_headers (hd : directory.isAbsolute)
    (h : preprocess tree ⟨compiler, arguments, directory⟩ excluded = .ok found) :
    IsListing tree directory excluded found.headers ∧ ∃ entries,
      baseEntries tree ((Settings.ofArguments arguments).absolute directory).bases = .ok entries ∧
      ∀ header ∈ found.headers, ∀ e ∈ entries, tree.identity header ≠ tree.identity e.path := by
  have hnormal : ∀ header ∈ found.headers, header.IsNormal := fun _ hheader =>
    isNormal_of_mem_headers hd h hheader
  have hkept : ∀ header ∈ found.headers, ∀ e ∈ excluded, tree.KeptOut directory e header :=
    fun header hheader e he => FileTree.keptOut_of_ne hd (hnormal header hheader)
      ((isFile_of_mem_headers h hheader).2 e he)
  obtain ⟨unit, source, entries, events, -, -, hbase, rfl, rfl⟩ := exists_walk_of_preprocess h
  refine ⟨⟨hnormal, Include.pairwise_identity_walk _ _ _ _, hkept⟩, entries, hbase,
    fun header hheader e he heq => ?_⟩
  refine Include.not_visited_of_mem_walk hheader ?_
  rw [heq, visitedBefore, List.cons_append]
  exact List.mem_cons_of_mem _ (List.mem_append_left _
    (List.mem_map_of_mem (f := fun e => tree.identity e.path) he))

end Scan

namespace Frontend

variable {frontend : Frontend} {invocation : Invocation} {found : Preprocessed}

/-- Whether a frontend is the one that scans or one that runs compilers. -/
def IsBuiltIn (frontend : Frontend) : Prop :=
  frontend = .scan ∨ ∃ launch, frontend = .process launch

theorem IsBuiltIn.isListing (h : frontend.IsBuiltIn) (hd : invocation.directory.isAbsolute)
    (hpreprocess : frontend.preprocess tree invocation excluded = (.ok found, after)) :
    IsListing after invocation.directory excluded found.headers := by
  rcases h with rfl | ⟨launch, rfl⟩
  · obtain ⟨hfound, rfl⟩ := Prod.mk.inj hpreprocess
    exact (Scan.isListing_headers hd hfound).1
  · simp only [process] at hpreprocess
    split at hpreprocess
    · cases hpreprocess
    · cases hpreprocess
      exact HeaderTrace.isListing_headers _ hd excluded _

end Frontend

end PrecompiledHeaders
