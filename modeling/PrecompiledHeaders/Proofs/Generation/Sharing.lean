import PrecompiledHeaders.Proofs.Generation.Includes
import PrecompiledHeaders.Proofs.Generation.Merging

/-!
# The headers that all parts share

What is collected for a part does not depend on what was collected before, but for the ids
(`Generator.collectParts_finds`). So the headers that all parts include can be read off what is
collected for each part by itself, with any frontend that leaves the files alone
(`Generator.shares_in_order`): they are the headers of the first part with files, in the order of that
part, as far as all other parts with files have them too. No file of a part is among them, however its
path is written, if the frontend tells headers by absolute paths. A relative path is not taken from
the working directory before it is compared (`Generator.relative_header_is_shared`).
-/

namespace PrecompiledHeaders

/-- What sets have in common stands in the order of the first. -/
theorem IncludeSet.order_foldl_intersect {s : IncludeSet} (hs : s.IsCoherent)
    (sets : List IncludeSet) : (sets.foldl intersect s).order =
      s.order.filter fun id => sets.all fun s' => s'.contains id := by
  induction sets generalizing s with
  | nil => simp
  | cons first rest ih =>
    have hfirst : (s.intersect first).IsCoherent := .ofList _
    rw [List.foldl_cons, ih hfirst, order_intersect hs, List.filter_filter]
    exact List.filter_congr fun id _ => by rw [List.all_cons, Bool.and_comm]

namespace Generator

open PrecompiledHeaders.Path

variable {g : Generator} {table : PathTable} {part : ProjectPart}

/-- The parts that have files. -/
def partsWithFiles (parts : List ProjectPart) : List ProjectPart :=
  parts.filter fun part => part.files ≠ []

/-- The headers of a part, with the arguments of all parts and without the files of any. -/
def headersOf (g : Generator) (part : ProjectPart) : List Path :=
  (g.globalCollector part).collected g.workspace.tree

/-- The headers of the first part, as far as the others have them too. -/
def inAll (headers : ProjectPart → List Path) : List ProjectPart → List Path
  | [] => []
  | first :: others => (headers first).filter fun p => others.all fun other => p ∈ headers other

/-- Whether a set is what a collector finds for a part, in the files of a generator and with ids that
    a table has by then. -/
structure Finds (g : Generator) (table : PathTable) (part : ProjectPart) (s : IncludeSet) : Prop where
  collected : ∃ workspace : Workspace, workspace.tree = g.workspace.tree ∧
    ((g.globalCollector part).collect workspace).2.table ≤ table ∧
    s = ((g.globalCollector part).collect workspace).1.found
  coherent : s.IsCoherent
  gives : table.Gives (g.headersOf part) s.order

/-- Each part with files is collected, in the order of the parts. -/
theorem collectParts_finds (hleaves : g.frontend.LeavesFiles) {workspace : Workspace}
    (htree : workspace.tree = g.workspace.tree) (parts : List ProjectPart) :
    List.Forall₂ (g.Finds (g.collectParts workspace parts).2.table) (partsWithFiles parts)
      (g.collectParts workspace parts).1 := by
  induction parts generalizing workspace with
  | nil => exact .nil
  | cons part rest ih =>
    have hiff : part.headerAndSourcePaths = [] ↔ part.files = [] := dedup_eq_nil_iff
    by_cases hfiles : part.files = []
    · have hparts : partsWithFiles (part :: rest) = partsWithFiles rest := by
        simp [partsWithFiles, hfiles]
      rw [collectParts_of_no_files (hiff.2 hfiles), hparts]
      exact ih htree
    · have hparts : partsWithFiles (part :: rest) = part :: partsWithFiles rest := by
        simp [partsWithFiles, hfiles]
      rw [collectParts_of_files (mt hiff.1 hfiles), hparts]
      have hle := (g.collectParts_isKnown ((g.globalCollector part).collect workspace).2 rest).1
      have hgives := Collector.gives_collect (c := g.globalCollector part) hleaves rfl workspace
      refine .cons ⟨⟨workspace, htree, hle, rfl⟩, ?_, ?_⟩
        (ih ((Collector.tree_collect hleaves workspace).trans htree))
      · rw [Collector.collect_eq hleaves]
        exact .ofList _
      · rw [htree] at hgives
        exact hgives.mono hle

/-! ### What sets have in common -/

variable {headers : ProjectPart → List Path} {parts : List ProjectPart} {sets : List IncludeSet}

/-- A header is among those of all parts if its id is in the sets of all parts. -/
theorem all_mem_iff (h : List.Forall₂ (fun part (s : IncludeSet) =>
      s.IsCoherent ∧ table.Gives (headers part) s.order) parts sets) {p : Path} {id : PathId}
    (hid : table.IsId p id) : (parts.all fun part => p ∈ headers part) = true ↔
      (sets.all fun s => s.contains id) = true := by
  induction h with
  | nil => exact Iff.rfl
  | @cons part s _ _ hfirst _ ih =>
    have hmem : p ∈ headers part ↔ id ∈ s.order :=
      List.rel_mem (PathTable.biUnique_isId table) hid hfirst.2.isId
    rw [List.all_cons, List.all_cons, Bool.and_eq_true, Bool.and_eq_true, ih, decide_eq_true_iff,
      hmem, hfirst.1.contains_iff]

theorem gives_inAll (h : List.Forall₂ (fun part (s : IncludeSet) =>
      s.IsCoherent ∧ table.Gives (headers part) s.order) parts sets) :
    table.Gives (inAll headers parts) (shared sets).order := by
  cases h with
  | nil => exact ⟨List.nodup_nil, .nil⟩
  | cons hfirst hothers =>
    rw [shared, IncludeSet.order_foldl_intersect hfirst.1]
    exact ⟨hfirst.2.nodup.filter _,
      List.rel_filter (fun _ _ hid => all_mem_iff hothers hid) hfirst.2.isId⟩

/-! ### Files of the project -/

theorem exists_same_of_mem_files (hpart : part ∈ g.parts) {file : Path} (hfile : file ∈ part.files) :
    ∃ listed ∈ g.headerAndSourcePaths, Same listed file := by
  have hmem : ∃ listed ∈ g.headerPaths ++ g.sourcePaths, Same listed file := by
    rcases List.mem_append.1 hfile with h | h
    · obtain ⟨q, hq, hsame⟩ := exists_mem_dedup_same (List.mem_flatMap_of_mem hpart h)
      exact ⟨q, List.mem_append_left _ hq, hsame⟩
    · obtain ⟨q, hq, hsame⟩ := exists_mem_dedup_same (List.mem_flatMap_of_mem hpart h)
      exact ⟨q, List.mem_append_right _ hq, hsame⟩
  obtain ⟨listed, hlisted, hsame⟩ := hmem
  obtain ⟨q, hq, hsame'⟩ := exists_mem_dedup_same hlisted
  exact ⟨q, hq, hsame'.trans hsame⟩

/-- What is collected for a part is no file of any part. -/
theorem not_same_of_mem_headersOf {p : Path} (hp : p ∈ g.headersOf part) {other : ProjectPart}
    (hother : other ∈ g.parts) {file : Path} (hfile : file ∈ other.files) :
    ¬Same p (g.environment.workingDirectory.normalizeFrom file) := by
  intro hsame
  obtain ⟨header, hheader, rfl⟩ := List.mem_map.1 (List.mem_eraseDups.1 hp)
  obtain ⟨listed, hlisted, hsame'⟩ := exists_same_of_mem_files hother hfile
  have hproject : (g.globalCollector part).isProjectFile header = true := by
    refine isAmong_iff.2 ⟨_, List.mem_map_of_mem hlisted, ?_⟩
    rw [hsame'.normalizeFrom_eq]
    exact hsame.symm
  have houtside := (List.mem_filter.1 hheader).2
  rw [hproject] at houtside
  cases houtside

theorem mem_headersOf_of_mem_inAll {p : Path} (h : p ∈ inAll headers parts) :
    ∃ part ∈ parts, p ∈ headers part := by
  cases parts with
  | nil => exact absurd h List.not_mem_nil
  | cons first others => exact ⟨first, List.mem_cons_self, (List.mem_filter.1 h).1⟩

/-- The headers that all parts include are found under their ids. -/
theorem gives_collectGlobal (hleaves : g.frontend.LeavesFiles) :
    g.collectGlobal.2.workspace.table.Gives (inAll g.headersOf (partsWithFiles g.parts))
      g.collectGlobal.1.order :=
  gives_inAll ((collectParts_finds hleaves rfl g.parts).imp fun _ _ h => ⟨h.coherent, h.gives⟩)

/-- The headers that all parts include are those of the first part with files that all other parts
    with files have too, in the order of the first. Each part is collected for itself, so what it has
    does not depend on the others. None of these headers is a file of a part, and neither is what an
    absolute one leads to from the working directory. -/
theorem shares_in_order (hleaves : g.frontend.LeavesFiles) :
    let after := g.collectGlobal.2.workspace.table
    let found := (g.collectParts g.workspace g.parts).1
    List.Forall₂ (g.Finds after) (partsWithFiles g.parts) found ∧
    (partsWithFiles g.parts = [] → g.collectGlobal.1.order = []) ∧
    (∀ first others, found = first :: others → g.collectGlobal.1.order =
      first.order.filter fun id => others.all fun other => other.contains id) ∧
    after.Gives (inAll g.headersOf (partsWithFiles g.parts)) g.collectGlobal.1.order ∧
    ∀ id ∈ g.collectGlobal.1.order, ∃ header, after.path id = .ok header ∧
      ∀ part ∈ g.parts, ∀ file ∈ part.files,
        ¬Same header (g.environment.workingDirectory.normalizeFrom file) ∧
        (header.isAbsolute = true → ¬Same (g.environment.workingDirectory.normalizeFrom header)
          (g.environment.workingDirectory.normalizeFrom file)) := by
  intro after found
  have hfinds : List.Forall₂ (g.Finds after) (partsWithFiles g.parts) found :=
    collectParts_finds hleaves rfl g.parts
  have hgives : after.Gives (inAll g.headersOf (partsWithFiles g.parts)) g.collectGlobal.1.order :=
    gives_collectGlobal hleaves
  refine ⟨hfinds, fun hnone => ?_, fun first others hfound => ?_, hgives, fun id hid => ?_⟩
  · rw [hnone] at hgives
    exact List.forall₂_nil_left_iff.1 hgives.isId
  · have hcoherent : first.IsCoherent := by
      rw [hfound] at hfinds
      obtain ⟨part, -, hfirst, -⟩ := List.forall₂_cons_right_iff.1 hfinds
      exact hfirst.coherent
    have hshared : g.collectGlobal.1 = shared found := rfl
    rw [hshared, hfound]
    exact IncludeSet.order_foldl_intersect hcoherent others
  · -- The id is that of a header of the first part, and that part was collected without project files.
    obtain ⟨header, hheader, hisId⟩ := hgives.exists_of_mem hid
    obtain ⟨part, -, hpart⟩ := mem_headersOf_of_mem_inAll hheader
    refine ⟨header, hisId.path_eq, fun other hother file hfile => ?_⟩
    have hnot := not_same_of_mem_headersOf hpart hother hfile
    refine ⟨hnot, fun habsolute => ?_⟩
    rwa [normalizeFrom_of_isAbsolute habsolute, hisId.normal]

/-! ### Parts of a batch -/

/-- A project of three parts, of which the first has no files. A unit of the second lists the headers
    of the third in another order, and one of the third lists a header of the second. -/
def batched : Generator where
  parts := [⟨"options", ["-O2"], [], []⟩,
    ⟨"first", ["-I."], [ofString "./p.h"], [ofString "b.cpp"]⟩,
    ⟨"second", [], [], [ofString "/a.cpp"]⟩]
  environment := ⟨"clang++", ofString "/out", .root⟩
  frontend := Collector.batch.frontend
  workspace := Collector.batchWorkspace

theorem shares_in_order_batched : batched.frontend.LeavesFiles ∧
    batched.collectGlobal.2.workspace.table.Gives [ofString "/y.h", ofString "/x.h"]
      batched.collectGlobal.1.order := by
  have hleaves : batched.frontend.LeavesFiles := fun _ _ _ => rfl
  obtain ⟨-, -, -, hgives, -⟩ := shares_in_order hleaves
  refine ⟨hleaves, Eq.mp (congrArg (fun headers => PathTable.Gives _ headers _) ?_) hgives⟩
  decide +kernel

/-! ### A header with a relative path -/

/-- A project whose only file is a header, and a frontend that tells this header by a relative path. -/
def relative : Generator where
  parts := [⟨"pair", [], [ofString "/wd/p.h"], []⟩]
  environment := ⟨"clang++", ofString "/out", ofString "/wd"⟩
  frontend :=
    { name := "relative"
      preprocess tree _ _ := (.ok ⟨[ofString "p.h"], []⟩, tree)
      compile tree _ := (.ok (), tree) }
  workspace := Collector.batchWorkspace

/-- Taken from the working directory, the relative path is that of the file of the part. -/
theorem relative_header_is_shared : relative.frontend.LeavesFiles ∧
    ∃ id ∈ relative.collectGlobal.1.order,
      relative.collectGlobal.2.workspace.table.path id = .ok (ofString "p.h") ∧
      ∃ part ∈ relative.parts, ∃ file ∈ part.files,
        Same (relative.environment.workingDirectory.normalizeFrom (ofString "p.h"))
          (relative.environment.workingDirectory.normalizeFrom file) := by
  have hleaves : relative.frontend.LeavesFiles := fun _ _ _ => rfl
  have hheaders : inAll relative.headersOf (partsWithFiles relative.parts) = [ofString "p.h"] := by
    decide +kernel
  have hgives := (gives_collectGlobal hleaves).isId
  rw [hheaders] at hgives
  obtain ⟨id, others, hid, -, horder⟩ := List.forall₂_cons_left_iff.1 hgives
  have hmem : id ∈ relative.collectGlobal.1.order := horder ▸ List.mem_cons_self
  exact ⟨hleaves, id, hmem, hid.path_eq, _, List.mem_cons_self, ofString "/wd/p.h",
    List.mem_cons_self, by decide +kernel⟩

end Generator

end PrecompiledHeaders
