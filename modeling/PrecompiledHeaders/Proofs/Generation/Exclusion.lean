import PrecompiledHeaders.Proofs.Frontend.Exclusion
import PrecompiledHeaders.Proofs.Generation.Collect

/-!
# Headers that are excluded from a collection

What the frontends say about a unit holds of all that a collector takes in: a header that it has not
held before was listed for one of its units, and is none of the excluded ones in the files as that
unit has left them (`Collector.excluded_headers_stay_out`). Excluded paths that turn back behind a link
are another matter: they count as their normal forms, which may lead to other files
(`Collector.excluded_header_is_listed`).
-/

namespace PrecompiledHeaders.Collector

open PrecompiledHeaders.Path

variable {c : Collector} {frontend : Frontend} {workspace : Workspace} {tree after : FileTree}
  {directory header : Path} {id : PathId}

/-- Whether a header is listed for a unit of a collector, and which files there are then. -/
def ListsFrom (c : Collector) (tree after : FileTree) (header : Path) : Prop :=
  ∃ front unit rest found, c.units = front ++ unit :: rest ∧
    c.frontend.preprocess (c.preprocessAll tree front).2 (c.invocation unit) c.excluded =
      (.ok found, after) ∧ header ∈ found.headers

theorem ListsFrom.eq_of_leavesFiles (h : c.ListsFrom tree after header)
    (hleaves : c.frontend.LeavesFiles) : after = tree := by
  obtain ⟨front, unit, rest, found, -, hpreprocess, -⟩ := h
  have hafter := hleaves (c.preprocessAll tree front).2 (c.invocation unit) c.excluded
  rw [hpreprocess, preprocessAll_of_leavesFiles hleaves] at hafter
  exact hafter

/-! ### Ids that are taken in -/

/-- An id that is taken in is that of a header that a result lists. -/
theorem exists_mem_of_addResults {results : List (Path × Except FrontendError Preprocessed)}
    (h : id ∈ (c.addResults workspace results).1.found.order) (hnew : id ∉ c.found.order) :
    ∃ found, .ok found ∈ results.map Prod.snd ∧ ∃ header ∈ found.headers,
      (c.addResults workspace results).2.table.get? header = some id := by
  rw [addResults_eq] at h ⊢
  have hid := (IncludeSet.mem_or_mem_of_mem_foldl_insert h).resolve_right hnew
  obtain ⟨header, hheader, hget⟩ := PathTable.exists_get?_of_mem_ids hid
  obtain ⟨result, hresult, hlisted⟩ := List.mem_flatMap.1 (List.mem_filter.1 hheader).1
  obtain ⟨found, hfound, hmem⟩ := mem_listing_iff.1 hlisted
  exact ⟨found, hfound ▸ List.mem_map_of_mem hresult, header, hmem, hget⟩

/-- What a collector finds besides what it held is listed for one of its units. -/
theorem exists_listsFrom (h : id ∈ (c.collect workspace).1.found.order)
    (hnew : id ∉ c.found.order) : ∃ header after, c.ListsFrom workspace.tree after header ∧
      (c.collect workspace).2.table.path id = .ok header.normalize := by
  obtain ⟨found, hmem, header, hheader, hget⟩ := exists_mem_of_addResults h hnew
  obtain ⟨⟨unit, result⟩, hzip, rfl⟩ := List.mem_map.1 hmem
  obtain ⟨front, unit, rest, hunits, hresult⟩ :=
    exists_of_mem_preprocessAll (List.of_mem_zip hzip).2
  exact ⟨header, _, ⟨front, unit, rest, found, hunits, Prod.ext hresult.symm rfl, hheader⟩,
    PathTable.path_of_get? hget⟩

/-! ### Headers that are kept out -/

theorem ListsFrom.keptOut (h : c.ListsFrom tree after header) (hbuiltIn : c.frontend.IsBuiltIn)
    (hd : c.directory.isAbsolute) :
    header.IsNormal ∧ ∀ e ∈ c.excluded, after.KeptOut c.directory e header := by
  obtain ⟨front, unit, rest, found, -, hpreprocess, hheader⟩ := h
  have hlisting := hbuiltIn.isListing hd hpreprocess
  exact ⟨hlisting.isNormal header hheader, hlisting.keptOut header hheader⟩

/-- What a collector takes in is a normal path, and none of the excluded ones, in the files from
    which it was listed. -/
theorem exists_keptOut (hbuiltIn : c.frontend.IsBuiltIn) (hd : c.directory.isAbsolute)
    (excluded : List Path) (h : id ∈ ((c.setExcluded excluded).collect workspace).1.found.order)
    (hnew : id ∉ c.found.order) :
    ∃ header after,
      ((c.setExcluded excluded).collect workspace).2.table.path id = .ok header ∧
      header.IsNormal ∧ (c.setExcluded excluded).ListsFrom workspace.tree after header ∧
      ∀ e ∈ excluded, after.KeptOut c.directory e header := by
  obtain ⟨header, after, hlists, hpath⟩ := exists_listsFrom h hnew
  obtain ⟨hnormal, hkept⟩ := hlists.keptOut hbuiltIn hd
  rw [hnormal.normalize_eq] at hpath
  refine ⟨header, after, hpath, hnormal, hlists, fun e he => FileTree.keptOut_of_ne hd hnormal ?_⟩
  -- The collector hands excluded paths on as normal paths, which are normalised once more.
  rw [← (isNormal_normalizeFrom hd e).normalizeFrom_eq c.directory]
  exact (hkept _ (List.mem_map_of_mem he)).normalized

/-- Both frontends list normal paths, no file twice, and none that is excluded. A scan does not list
    the headers of precompiled headers in front of the unit either. A collector takes in only what
    they list so. -/
theorem excluded_headers_stay_out (hbuiltIn : frontend.IsBuiltIn) (hd : directory.isAbsolute) :
    (∀ tree compiler arguments excluded found after,
      frontend.preprocess tree ⟨compiler, arguments, directory⟩ excluded = (.ok found, after) →
        IsListing after directory excluded found.headers ∧
        (frontend = .scan → ∃ entries, Scan.baseEntries after
            ((Settings.ofArguments arguments).absolute directory).bases = .ok entries ∧
          ∀ header ∈ found.headers, ∀ e ∈ entries,
            after.identity header ≠ after.identity e.path)) ∧
    (∀ (c : Collector) excluded workspace, c.frontend = frontend → c.directory = directory →
      ∀ id ∈ ((c.setExcluded excluded).collect workspace).1.found.order, id ∉ c.found.order →
        ∃ header after,
          ((c.setExcluded excluded).collect workspace).2.table.path id = .ok header ∧
          header.IsNormal ∧ (c.setExcluded excluded).ListsFrom workspace.tree after header ∧
          (frontend.LeavesFiles → after = workspace.tree) ∧
          ∀ e ∈ excluded, after.KeptOut directory e header) := by
  constructor
  · intro tree compiler arguments excluded found after h
    refine ⟨hbuiltIn.isListing hd h, ?_⟩
    rintro rfl
    obtain ⟨hfound, rfl⟩ := Prod.mk.inj h
    exact (Scan.isListing_headers hd hfound).2
  · rintro c excluded workspace rfl rfl id hid hnew
    obtain ⟨header, after, hpath, hnormal, hlists, hkept⟩ :=
      exists_keptOut hbuiltIn hd excluded hid hnew
    exact ⟨header, after, hpath, hnormal, hlists, hlists.eq_of_leavesFiles, hkept⟩

/-! ### Headers behind links -/

/-- A unit with two headers in a directory, and two links: one to this directory, the other to one
    that is in it. -/
def linkedTree : FileTree where
  entries := [
    ([(ofString "main.cpp").bytes],
      .file (ofString "#include \"d/b.h\"\n#include \"d/c.h\"\n").bytes),
    ([(ofString "d").bytes], .directory),
    ([(ofString "b.h").bytes, (ofString "d").bytes], .file []),
    ([(ofString "c.h").bytes, (ofString "d").bytes], .file []),
    ([(ofString "e").bytes, (ofString "d").bytes], .directory),
    ([(ofString "l").bytes], .link (ofString "d/e")),
    ([(ofString "m").bytes], .link (ofString "d"))]
  here := []

/-- A collector for the unit. -/
def linked : Collector :=
  { frontend := .scan, compiler := "clang++", arguments := [], directory := .root,
    units := [ofString "/main.cpp"] }

theorem isNormal_linkedUnit : (ofString "/main.cpp").IsNormal := ⟨by decide, by decide⟩

/-- What a scan tells about the unit if one path is excluded. -/
def linkedWithout (p : Path) : Option Preprocessed :=
  Scan.preprocessWithin 4 linkedTree [] .root [p] (ofString "/main.cpp")

theorem preprocess_linked {p : Path} {found : Preprocessed} (h : linkedWithout p = some found) :
    Scan.preprocess linkedTree (linked.invocation (ofString "/main.cpp")) [p] = .ok found :=
  Scan.preprocess_of_preprocessWithin Settings.isOpenEnded_nil isNormal_linkedUnit
    (isText_ofString _) h

theorem linkedWithout_eq : linkedWithout (ofString "/m/c.h") = some ⟨[ofString "/d/b.h"], []⟩ := by
  decide +kernel

theorem mem_collect_linked : ⟨0⟩ ∈ ((linked.setExcluded [ofString "/m/c.h"]).collect
    ⟨linkedTree, .empty, .empty⟩).1.found.order := by
  have hexcluded : linked.setExcluded [ofString "/m/c.h"] =
      { linked with excluded := [ofString "/m/c.h"] } := by
    have hnormal : (ofString "/m/c.h").IsNormal := ⟨by decide, by decide⟩
    simp only [setExcluded, List.map_cons, List.map_nil, hnormal.normalizeFrom_eq]
  have houtside : isProjectFile { linked with excluded := [ofString "/m/c.h"] }
      (ofString "/d/b.h") = false := by decide
  have hid : (PathTable.empty.id (ofString "/d/b.h")).1 = ⟨0⟩ := by decide +kernel
  rw [hexcluded, collect_of_unit _ Frontend.leavesFiles_scan rfl (by decide +kernel)
    (preprocess_linked linkedWithout_eq)]
  simp only [addHeaders, houtside, Bool.false_eq_true, if_false, hid]
  exact (IncludeSet.mem_order_insert .empty).2 (.inl rfl)

/-- A file that is excluded by way of a link is not listed, and not collected. -/
theorem excluded_headers_stay_out_linked :
    IsListing linkedTree .root [ofString "/m/c.h"] [ofString "/d/b.h"] ∧
    ∃ header, ((linked.setExcluded [ofString "/m/c.h"]).collect
        ⟨linkedTree, .empty, .empty⟩).2.table.path ⟨0⟩ = .ok header ∧
      linkedTree.KeptOut .root (ofString "/m/c.h") header := by
  obtain ⟨hlists, hcollects⟩ := @excluded_headers_stay_out .scan .root (.inl rfl) rfl
  have hlisting := hlists linkedTree linked.compiler _ _ _ linkedTree
    (Prod.ext (preprocess_linked linkedWithout_eq) rfl)
  obtain ⟨header, after, hpath, -, -, hafter, hkept⟩ := hcollects linked [ofString "/m/c.h"]
    ⟨linkedTree, .empty, .empty⟩ rfl rfl ⟨0⟩ mem_collect_linked List.not_mem_nil
  rw [hafter Frontend.leavesFiles_scan] at hkept
  exact ⟨hlisting.1, header, hpath, hkept _ List.mem_cons_self⟩

/-- The link leads up from the directory that it points to, and so to a header. But the normal form
    of the path does not, and the header is listed. -/
theorem excluded_header_is_listed : ∃ found,
    (Frontend.scan.preprocess linkedTree (linked.invocation (ofString "/main.cpp"))
      [ofString "/l/../b.h"]).1 = .ok found ∧
    ∃ header ∈ found.headers,
      linkedTree.identity header = linkedTree.identity (ofString "/l/../b.h") := by
  have hwalk : linkedWithout (ofString "/l/../b.h") =
      some ⟨[ofString "/d/b.h", ofString "/d/c.h"], []⟩ := by decide +kernel
  exact ⟨_, preprocess_linked hwalk, ofString "/d/b.h", List.mem_cons_self, by decide +kernel⟩

end PrecompiledHeaders.Collector
