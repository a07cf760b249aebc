import PrecompiledHeaders.Proofs.Generation.Steps

/-!
# Includes of a project

Include edges make a graph of the files in a tree (`Reaches`). What a generator with the scanning
frontend finds is given by reachability in that graph alone (`Generator.includes_are_reached`):

* all parts include the headers outside of the project that are reached from each part with
  files, where includes are resolved with the arguments of all parts;
* a part adds the headers outside of it that are reached from it, with its own arguments, over
  headers that not all parts include.

This holds at any time, whatever operations came before and however the files have changed, as long
as the tree of the moment has no links.
-/

namespace PrecompiledHeaders

/-- The files of a part. -/
def ProjectPart.files (part : ProjectPart) : List Path := part.headers ++ part.sources

/-- Whether the files of a part are absolute paths that are text, and its arguments name no input
    and no precompiled header and wait for no value. -/
structure ProjectPart.IsRegular (part : ProjectPart) : Prop where
  isAbsolute : ∀ file ∈ part.files, file.isAbsolute = true
  isText : ∀ file ∈ part.files, file.IsText
  arguments : Settings.IsOpenEnded part.arguments

namespace Generator

variable {g g' : Generator} {part : ProjectPart} {parts : List ProjectPart}
  {arguments : List String} {files projectFiles excluded : List Path} {workspace : Workspace}
  {p q : Path}

/-! ### The files of a project -/

/-- The files of a project are those of its parts. -/
theorem isListed_projectFiles (g : Generator) (q : Path) :
    Path.IsListed g.headerAndSourcePaths q ↔ ∃ part ∈ g.parts, Path.IsListed part.files q := by
  have hheaders : Path.IsListed g.headerPaths q ↔
      Path.IsListed (g.parts.flatMap ProjectPart.headers) q := Path.isListed_dedup_iff
  have hsources : Path.IsListed g.sourcePaths q ↔
      Path.IsListed (g.parts.flatMap ProjectPart.sources) q := Path.isListed_dedup_iff
  have hall : Path.IsListed g.headerAndSourcePaths q ↔
      Path.IsListed (g.headerPaths ++ g.sourcePaths) q := Path.isListed_dedup_iff
  -- The lists go over all headers and then over all sources, while a part has both.
  rw [hall, Path.isListed_append_iff, hheaders, hsources]
  constructor
  · rintro (⟨file, hmem, heq⟩ | ⟨file, hmem, heq⟩)
    · obtain ⟨part, hpart, hfile⟩ := List.mem_flatMap.1 hmem
      exact ⟨part, hpart, file, List.mem_append_left _ hfile, heq⟩
    · obtain ⟨part, hpart, hfile⟩ := List.mem_flatMap.1 hmem
      exact ⟨part, hpart, file, List.mem_append_right _ hfile, heq⟩
  · rintro ⟨part, hpart, file, hfile, heq⟩
    rcases List.mem_append.1 hfile with hfile | hfile
    · exact .inl ⟨file, List.mem_flatMap_of_mem hpart hfile, heq⟩
    · exact .inr ⟨file, List.mem_flatMap_of_mem hpart hfile, heq⟩

theorem exists_mem_files_of_mem (h : p ∈ g.headerAndSourcePaths) :
    ∃ part ∈ g.parts, p ∈ part.files := by
  rcases List.mem_append.1 (Path.mem_of_mem_dedup h) with h | h
  · obtain ⟨part, hpart, hfile⟩ := List.mem_flatMap.1 (Path.mem_of_mem_dedup h)
    exact ⟨part, hpart, List.mem_append_left _ hfile⟩
  · obtain ⟨part, hpart, hfile⟩ := List.mem_flatMap.1 (Path.mem_of_mem_dedup h)
    exact ⟨part, hpart, List.mem_append_right _ hfile⟩

theorem mem_units_iff (hd : g.environment.workingDirectory.isAbsolute)
    (hfiles : ∀ file ∈ part.files, file.isAbsolute = true) :
    q ∈ (g.partCollector arguments part projectFiles excluded).units ↔
      Path.IsListed part.files q := by
  have hunits : (g.partCollector arguments part projectFiles excluded).units = Path.dedup
      (part.headerAndSourcePaths.map g.environment.workingDirectory.normalizeFrom) := rfl
  have habs : ∀ file ∈ part.headerAndSourcePaths, file.isAbsolute = true := by
    intro file hfile
    exact hfiles file (Path.mem_of_mem_dedup hfile)
  rw [hunits, Path.mem_dedup_iff fun p => Path.isNormal_of_mem_map hd,
    Path.mem_map_normalizeFrom_iff habs]
  exact Path.isListed_dedup_iff

theorem isAmong_projectFiles_iff (hd : g.environment.workingDirectory.isAbsolute)
    (hfiles : ∀ file ∈ projectFiles, file.isAbsolute = true) (hq : q.IsNormal) :
    q.isAmong (g.partCollector arguments part projectFiles excluded).projectFiles = false ↔
      ¬Path.IsListed projectFiles q := by
  have hmap : (g.partCollector arguments part projectFiles excluded).projectFiles =
      projectFiles.map g.environment.workingDirectory.normalizeFrom := rfl
  rw [← Bool.not_eq_true, hmap, hq.isAmong_iff fun p => Path.isNormal_of_mem_map hd,
    Path.mem_map_normalizeFrom_iff hfiles]

/-! ### What a collector finds -/

/-- Whether a header is reached from a file of a part. -/
def ReachesFrom (g : Generator) (arguments : List String) (avoid : Path → Prop)
    (part : ProjectPart) (h : Path) : Prop :=
  ∃ file ∈ part.files, Scan.ReachedFrom g.workspace.tree arguments
    g.environment.workingDirectory avoid file.normalize h.normalize

/-- Whether a generator scans a tree without links. -/
structure IsScanning (g : Generator) : Prop where
  frontend : g.frontend = .scan
  directory : g.environment.workingDirectory.isAbsolute = true
  isPlain : g.workspace.tree.IsPlain

theorem IsScanning.partCollector (hg : g.IsScanning) (hpart : part.IsRegular)
    (harguments : Settings.IsOpenEnded arguments) :
    (g.partCollector arguments part projectFiles excluded).IsScanning := by
  refine ⟨hg.frontend, hg.directory, harguments, fun unit hunit => ?_, fun p hp => ?_⟩
  · obtain ⟨file, hfile, rfl⟩ := (mem_units_iff hg.directory hpart.isAbsolute).1 hunit
    have habs := hpart.isAbsolute file hfile
    exact ⟨Path.isNormal_normalize habs, (hpart.isText file hfile).normalize habs⟩
  · exact Path.isNormal_of_mem_map hg.directory hp

/-- A collector for a part finds what is reached from its files, except for files of the project. -/
theorem holds_partCollector_iff (hg : g.IsScanning) (hpart : part.IsRegular)
    (harguments : Settings.IsOpenEnded arguments) (hexcluded : ∀ p ∈ excluded, p.IsNormal)
    (hprojectFiles : ∀ file ∈ projectFiles, file.isAbsolute = true)
    (hcovered : ∀ q, Path.IsListed part.files q → Path.IsListed projectFiles q)
    (htree : workspace.tree = g.workspace.tree) (h : Path) :
    ((g.partCollector arguments part projectFiles excluded).collect workspace).1.found.Holds
        ((g.partCollector arguments part projectFiles excluded).collect workspace).2.table h ↔
      ¬Path.IsListed projectFiles h.normalize ∧
        g.ReachesFrom arguments (· ∈ excluded) part h := by
  have hscanning : (g.partCollector arguments part projectFiles excluded).IsScanning :=
    hg.partCollector hpart harguments
  have hexcluded : (g.partCollector arguments part projectFiles excluded).excluded = excluded :=
    Path.map_normalizeFrom_of_isNormal hexcluded
  have hamong (hnormal : h.normalize.IsNormal) : h.normalize.isAmong
      (g.partCollector arguments part projectFiles excluded).projectFiles = false ↔
        ¬Path.IsListed projectFiles h.normalize :=
    isAmong_projectFiles_iff hg.directory hprojectFiles hnormal
  rw [Collector.holds_collect_iff hscanning (htree ▸ hg.isPlain) rfl, hexcluded, htree]
  constructor
  · rintro ⟨hout, unit, hunit, -, hreached⟩
    obtain ⟨file, hfile, rfl⟩ := (mem_units_iff hg.directory hpart.isAbsolute).1 hunit
    have hnormal := hreached.isNormal hg.directory (hscanning.units _ hunit).1.isAbsolute
    exact ⟨(hamong hnormal).1 hout, file, hfile, hreached⟩
  · -- A unit is a file of the project, so what is outside is no unit.
    rintro ⟨hout, file, hfile, hreached⟩
    have hunit : file.normalize ∈ (g.partCollector arguments part projectFiles excluded).units :=
      (mem_units_iff hg.directory hpart.isAbsolute).2 ⟨file, hfile, rfl⟩
    have hnormal := hreached.isNormal hg.directory (hscanning.units _ hunit).1.isAbsolute
    refine ⟨(hamong hnormal).2 hout, _, hunit, fun heq => hout ?_, hreached⟩
    exact hcovered _ ⟨file, hfile, heq.symm⟩

/-! ### The headers that all parts include -/

theorem IsScanning.listsAbsolute (hg : g.IsScanning) : g.ListsAbsolute :=
  ⟨hg.frontend ▸ Frontend.listsAbsolute_scan, hg.directory⟩

theorem tree_collectParts_of_leavesFiles (hleaves : g.frontend.LeavesFiles) (workspace : Workspace)
    (parts : List ProjectPart) : (g.collectParts workspace parts).2.tree = workspace.tree := by
  induction parts generalizing workspace with
  | nil => rfl
  | cons part rest ih =>
    by_cases hfiles : part.headerAndSourcePaths = []
    · rw [collectParts_of_no_files hfiles]
      exact ih workspace
    · rw [collectParts_of_files hfiles]
      exact (ih _).trans (Collector.tree_collect hleaves workspace)

theorem IsScanning.leavesFiles (hg : g.IsScanning) : g.frontend.LeavesFiles :=
  hg.frontend ▸ Frontend.leavesFiles_scan

theorem IsScanning.tree_collect (hg : g.IsScanning) (arguments : List String) (part : ProjectPart)
    (projectFiles excluded : List Path) (workspace : Workspace) :
    ((g.partCollector arguments part projectFiles excluded).collect workspace).2.tree =
      workspace.tree := Collector.tree_collect hg.leavesFiles workspace

theorem IsScanning.tree_collectParts (hg : g.IsScanning) (workspace : Workspace)
    (parts : List ProjectPart) : (g.collectParts workspace parts).2.tree = workspace.tree :=
  tree_collectParts_of_leavesFiles hg.leavesFiles workspace parts

theorem collectParts_eq_nil_iff (g : Generator) (workspace : Workspace) (parts : List ProjectPart) :
    (g.collectParts workspace parts).1 = [] ↔ ∀ part ∈ parts, part.files = [] := by
  induction parts generalizing workspace with
  | nil => simp [collectParts]
  | cons part rest ih =>
    rw [List.forall_mem_cons]
    by_cases hfiles : part.headerAndSourcePaths = []
    · rw [collectParts_of_no_files hfiles, ih]
      exact (and_iff_right (Path.dedup_eq_nil_iff.1 hfiles)).symm
    · rw [collectParts_of_files hfiles]
      exact iff_of_false (List.cons_ne_nil _ _) fun h => hfiles (Path.dedup_eq_nil_iff.2 h.1)

/-- The set that is found for a part when the headers that all parts include are looked for. -/
theorem holds_globalCollector_iff (hg : g.IsScanning) (hproject : ∀ part ∈ g.parts, part.IsRegular)
    (hpart : part ∈ g.parts) (htree : workspace.tree = g.workspace.tree) (h : Path) :
    ((g.globalCollector part).collect workspace).1.found.Holds
        ((g.globalCollector part).collect workspace).2.table h ↔
      ¬Path.IsListed g.headerAndSourcePaths h.normalize ∧
        g.ReachesFrom g.arguments (· ∈ []) part h := by
  have harguments : Settings.IsOpenEnded g.arguments :=
    .flatMap fun part hpart => (hproject part hpart).arguments
  have habs : ∀ file ∈ g.headerAndSourcePaths, file.isAbsolute = true := by
    intro file hfile
    obtain ⟨part, hpart, hfile⟩ := exists_mem_files_of_mem hfile
    exact (hproject part hpart).isAbsolute file hfile
  have hcovered : ∀ q, Path.IsListed part.files q → Path.IsListed g.headerAndSourcePaths q := by
    intro q hq
    exact (isListed_projectFiles g q).2 ⟨part, hpart, hq⟩
  exact holds_partCollector_iff hg (hproject part hpart) harguments
    (fun p hp => absurd hp List.not_mem_nil) habs hcovered htree h

/-- The sets that are found for the parts with files. -/
theorem holds_collectParts_iff (hg : g.IsScanning) (hproject : ∀ part ∈ g.parts, part.IsRegular)
    (hparts : ∀ part ∈ parts, part ∈ g.parts) (htree : workspace.tree = g.workspace.tree)
    (h : Path) :
    (∀ s ∈ (g.collectParts workspace parts).1,
        s.Holds (g.collectParts workspace parts).2.table h) ↔
      ∀ part ∈ parts, part.files ≠ [] →
        ¬Path.IsListed g.headerAndSourcePaths h.normalize ∧
          g.ReachesFrom g.arguments (· ∈ []) part h := by
  induction parts generalizing workspace with
  | nil => simp [collectParts]
  | cons part rest ih =>
    have hrest : ∀ part ∈ rest, part ∈ g.parts := fun p hp => hparts p (List.mem_cons_of_mem _ hp)
    have hpart := hparts part List.mem_cons_self
    rw [List.forall_mem_cons]
    by_cases hfiles : part.headerAndSourcePaths = []
    · rw [collectParts_of_no_files hfiles, ih hrest htree]
      exact (and_iff_right fun hne => absurd (Path.dedup_eq_nil_iff.1 hfiles) hne).symm
    · have htree' : ((g.globalCollector part).collect workspace).2.tree = g.workspace.tree :=
        (hg.tree_collect _ _ _ _ workspace).trans htree
      have hfound : ((g.globalCollector part).collect workspace).1.found.IsSound
          ((g.globalCollector part).collect workspace).2.table :=
        (Collector.collect_takes hg.listsAbsolute.frontend hg.directory workspace).2.sound (.empty _)
      have hle := (g.collectParts_isSound hg.listsAbsolute
        ((g.globalCollector part).collect workspace).2 rest).1
      have hne : part.files ≠ [] := fun hnil => hfiles (Path.dedup_eq_nil_iff.2 hnil)
      -- The sets of the other parts come later, when the table has more ids.
      rw [collectParts_of_files hfiles, List.forall_mem_cons, hfound.holds_iff_of_le hle,
        holds_globalCollector_iff hg hproject hpart htree]
      exact and_congr (imp_iff_right hne).symm (ih hrest htree')

/-- The headers that all parts include are those outside of the project that are reached from
    each part with files. -/
theorem holds_collectGlobal_iff (hg : g.IsScanning) (hproject : ∀ part ∈ g.parts, part.IsRegular)
    (h : Path) : g.collectGlobal.1.Holds g.collectGlobal.2.workspace.table h ↔
      (∀ part ∈ g.parts, ∀ file ∈ part.files, file.normalize ≠ h.normalize) ∧
      (∃ part ∈ g.parts, part.files ≠ []) ∧
      ∀ part ∈ g.parts, part.files ≠ [] →
        g.ReachesFrom g.arguments (fun _ => False) part h := by
  have hsound := (g.collectParts_isSound hg.listsAbsolute g.workspace g.parts).2
  have hsome : (g.collectParts g.workspace g.parts).1 ≠ [] ↔ ∃ part ∈ g.parts, part.files ≠ [] := by
    rw [Ne, g.collectParts_eq_nil_iff]
    push Not
    rfl
  have hout : ¬Path.IsListed g.headerAndSourcePaths h.normalize ↔
      ∀ part ∈ g.parts, ∀ file ∈ part.files, file.normalize ≠ h.normalize := by
    rw [isListed_projectFiles]
    push Not
    exact forall₂_congr fun part _ => Path.not_isListed_iff
  have havoid : (· ∈ ([] : List Path)) = fun _ => False := by simp
  show (shared (g.collectParts g.workspace g.parts).1).Holds
    (g.collectParts g.workspace g.parts).2.table h ↔ _
  rw [IncludeSet.holds_shared_iff hsound, hsome,
    holds_collectParts_iff hg hproject (fun part => id) rfl, hout, havoid]
  constructor
  · rintro ⟨⟨part, hpart, hfiles⟩, hall⟩
    exact ⟨(hall part hpart hfiles).1, ⟨part, hpart, hfiles⟩, fun part hpart hfiles =>
      (hall part hpart hfiles).2⟩
  · rintro ⟨hnot, hexists, hall⟩
    exact ⟨hexists, fun part hpart hfiles => ⟨hnot, hall part hpart hfiles⟩⟩

/-! ### What comes of collecting -/

theorem listsAbsolute_of_scan (hscan : g.frontend = .scan)
    (hd : g.environment.workingDirectory.isAbsolute = true) : g.ListsAbsolute :=
  ⟨hscan ▸ Frontend.listsAbsolute_scan, hd⟩

/-- What is found for parts is listed for one of their units. -/
theorem exists_of_holds_collectParts (hscan : g.frontend = .scan)
    (hd : g.environment.workingDirectory.isAbsolute = true) (workspace : Workspace)
    (parts : List ProjectPart) : ∀ s ∈ (g.collectParts workspace parts).1, ∀ p,
      s.Holds (g.collectParts workspace parts).2.table p →
        ∃ part ∈ parts, ∃ unit ∈ (g.globalCollector part).units, ∃ found,
          Scan.preprocess workspace.tree ((g.globalCollector part).invocation unit) [] =
            .ok found ∧ p.normalize ∈ found.headers := by
  have hlists := listsAbsolute_of_scan hscan hd
  induction parts generalizing workspace with
  | nil => exact fun s hs => absurd hs List.not_mem_nil
  | cons part rest ih =>
    by_cases hfiles : part.headerAndSourcePaths = []
    · rw [collectParts_of_no_files hfiles]
      intro s hs p hp
      obtain ⟨other, hother, h⟩ := ih workspace s hs p hp
      exact ⟨other, List.mem_cons_of_mem _ hother, h⟩
    · intro s hs p hp
      rw [collectParts_of_files hfiles] at hs hp
      have hleaves : g.frontend.LeavesFiles := hscan ▸ Frontend.leavesFiles_scan
      have htree : ((g.globalCollector part).collect workspace).2.tree = workspace.tree :=
        Collector.tree_collect hleaves workspace
      rcases List.mem_cons.1 hs with rfl | hs
      · -- The sets of the other parts come later, when the table has more ids.
        have hsound := (Collector.collect_takes (c := g.globalCollector part) hlists.frontend
          hlists.directory workspace).2.sound (.empty _)
        have hle := (g.collectParts_isKnown ((g.globalCollector part).collect workspace).2 rest).1
        exact ⟨part, List.mem_cons_self, Collector.exists_of_holds_collect hscan hd rfl
          ((hsound.holds_iff_of_le hle).1 hp)⟩
      · obtain ⟨other, hother, h⟩ := ih _ s hs p hp
        rw [htree] at h
        exact ⟨other, List.mem_cons_of_mem _ hother, h⟩

/-- The headers that all parts include are listed for units. -/
theorem exists_of_holds_collectGlobal (hscan : g.frontend = .scan)
    (hd : g.environment.workingDirectory.isAbsolute = true)
    (h : g.collectGlobal.1.Holds g.collectGlobal.2.workspace.table p) :
    ∃ part ∈ g.parts, ∃ unit ∈ (g.globalCollector part).units, ∃ found,
      Scan.preprocess g.workspace.tree ((g.globalCollector part).invocation unit) [] = .ok found ∧
        p.normalize ∈ found.headers := by
  obtain ⟨hne, hall⟩ := (IncludeSet.holds_shared_iff
    (g.collectParts_isSound (listsAbsolute_of_scan hscan hd) g.workspace g.parts).2).1 h
  obtain ⟨s, hs⟩ := List.exists_mem_of_ne_nil _ hne
  exact exists_of_holds_collectParts hscan hd g.workspace g.parts s hs p (hall s hs)

/-- The units of parts tell their unresolved includes. -/
theorem exists_told_collectParts (hscan : g.frontend = .scan) (workspace : Workspace)
    (parts : List ProjectPart) : ∃ told,
      (g.collectParts workspace parts).2.sink = workspace.sink.extend told ∧
      ∀ part ∈ parts, ∀ unit ∈ (g.globalCollector part).units, ∀ found,
        Scan.preprocess workspace.tree ((g.globalCollector part).invocation unit) [] = .ok found →
          ∀ missing ∈ found.unresolved, Collector.missingInclude missing ∈ told := by
  have hleaves : g.frontend.LeavesFiles := hscan ▸ Frontend.leavesFiles_scan
  induction parts generalizing workspace with
  | nil => exact ⟨[], rfl, fun _ h => absurd h List.not_mem_nil⟩
  | cons part rest ih =>
    by_cases hfiles : part.headerAndSourcePaths = []
    · obtain ⟨told, hsink, htold⟩ := ih workspace
      refine ⟨told, by rw [collectParts_of_no_files hfiles]; exact hsink, fun other hother => ?_⟩
      rcases List.mem_cons.1 hother with rfl | hother
      · -- A part without files has no units.
        have hunits : (g.globalCollector other).units = Path.dedup
            (other.headerAndSourcePaths.map g.environment.workingDirectory.normalizeFrom) := rfl
        rw [hunits, hfiles]
        exact fun unit hunit => absurd hunit List.not_mem_nil
      · exact htold other hother
    · obtain ⟨told, hsink, htold⟩ :=
        Collector.exists_told_collect (c := g.globalCollector part) hleaves workspace
      obtain ⟨others, hsink', hothers⟩ := ih ((g.globalCollector part).collect workspace).2
      have htree : ((g.globalCollector part).collect workspace).2.tree = workspace.tree :=
        Collector.tree_collect hleaves workspace
      refine ⟨told ++ others, ?_, fun other hother unit hunit found hfound missing hin => ?_⟩
      · rw [collectParts_of_files hfiles, hsink', hsink, DiagnosticSink.extend_append]
      · rcases List.mem_cons.1 hother with rfl | hother
        · refine List.mem_append_left _ (htold unit hunit found ?_ missing hin)
          have hfrontend : (g.globalCollector other).frontend = .scan := hscan
          rw [hfrontend]
          exact hfound
        · rw [htree] at hothers
          exact List.mem_append_right _ (hothers other hother unit hunit found hfound missing hin)

/-! ### The headers that a part adds -/

/-- Whether a header is known as one that all parts include. -/
def HoldsGlobal (g : Generator) (h : Path) : Prop :=
  g.knownGlobal.1.Holds g.knownGlobal.2.workspace.table h

theorem IsScanning.tree_knownGlobal (hg : g.IsScanning) :
    g.knownGlobal.2.workspace.tree = g.workspace.tree := by
  unfold knownGlobal
  split
  · rfl
  · exact hg.tree_collectParts g.workspace g.parts

theorem IsScanning.knownGlobal (hg : g.IsScanning) : g.knownGlobal.2.IsScanning := by
  have hgoes := (Acts.knownGlobal g).goesOn
  refine ⟨hgoes.frontend.trans hg.frontend, ?_, ?_⟩
  · rw [hgoes.environment]
    exact hg.directory
  · rw [hg.tree_knownGlobal]
    exact hg.isPlain

theorem reachesFrom_congr {avoid avoid' : Path → Prop} (hg : g.IsScanning)
    (hpart : part.IsRegular) (ha : ∀ q : Path, q.IsNormal → (avoid q ↔ avoid' q)) (h : Path) :
    g.ReachesFrom arguments avoid part h ↔ g.ReachesFrom arguments avoid' part h :=
  exists_congr fun file => and_congr_right fun hfile => Scan.reachedFrom_congr hg.directory
    (Path.isNormal_normalize (hpart.isAbsolute file hfile)).isAbsolute ha

/-- The headers that a part adds are those outside of it that are reached from it over headers
    that not all parts include. -/
theorem holds_collectPart_iff (hg : g.IsScanning) (hknows : g.KnowsGlobal)
    (hpart : part.IsRegular) : ∃ found, (g.collectPart part).1 = .ok found ∧
      ∀ h, found.Holds (g.collectPart part).2.workspace.table h ↔
        (∀ file ∈ part.files, file.normalize ≠ h.normalize) ∧
        g.ReachesFrom part.arguments g.HoldsGlobal part h := by
  have hgoes := (Acts.knownGlobal g).goesOn
  -- Every id that is known stands for a path, so the exclusions can be looked up.
  obtain ⟨excluded, hresolve, hnormal, hmem⟩ :=
    (knownGlobal_isSound hg.listsAbsolute hknows).exists_resolve
  rw [collectPart_of_resolve hresolve]
  refine ⟨_, rfl, fun h => ?_⟩
  have hlisted (q : Path) : Path.IsListed part.headerAndSourcePaths q ↔
      Path.IsListed part.files q := Path.isListed_dedup_iff
  have hout : ¬Path.IsListed part.headerAndSourcePaths h.normalize ↔
      ∀ file ∈ part.files, file.normalize ≠ h.normalize :=
    (not_congr (hlisted _)).trans Path.not_isListed_iff
  have habs : ∀ file ∈ part.headerAndSourcePaths, file.isAbsolute = true := fun file hfile =>
    hpart.isAbsolute file (Path.mem_of_mem_dedup hfile)
  have hreaches : g.knownGlobal.2.ReachesFrom part.arguments (· ∈ excluded) part h ↔
      g.ReachesFrom part.arguments (· ∈ excluded) part h := by
    rw [ReachesFrom, hgoes.environment, hg.tree_knownGlobal]
    rfl
  refine (holds_partCollector_iff hg.knownGlobal hpart hpart.arguments hnormal habs
    (fun q => (hlisted q).2) rfl h).trans (and_congr hout (hreaches.trans ?_))
  exact reachesFrom_congr hg hpart hmem h

/-! ### Includes of a project -/

/-- What a generator finds, at any time after it was made, is what is reached in the tree that
    there is then. -/
theorem includes_are_reached {g₀ g : Generator} (hsteps : Steps g₀ g)
    (hnew : g₀.globalIncludes = none) (hscan : g₀.frontend = .scan)
    (hdirectory : g₀.environment.workingDirectory.isAbsolute = true)
    (hparts : ∀ part ∈ g₀.parts, part.IsRegular) (htree : g.workspace.tree.IsPlain) :
    (∀ h, g.collectGlobal.1.Holds g.collectGlobal.2.workspace.table h ↔
      (∀ part ∈ g.parts, ∀ file ∈ part.files, file.normalize ≠ h.normalize) ∧
      (∃ part ∈ g.parts, part.files ≠ []) ∧
      ∀ part ∈ g.parts, part.files ≠ [] →
        g.ReachesFrom g.arguments (fun _ => False) part h) ∧
    ∀ part : ProjectPart, part.IsRegular → ∃ found, (g.collectPart part).1 = .ok found ∧
      ∀ h, found.Holds (g.collectPart part).2.workspace.table h ↔
        (∀ file ∈ part.files, file.normalize ≠ h.normalize) ∧
        g.ReachesFrom part.arguments g.HoldsGlobal part h := by
  -- Whatever was called, the project is still there, and the set that may be known is sound. No
  -- more is needed of the past.
  have hgoes := hsteps.goesOn
  have hg : g.IsScanning :=
    ⟨hgoes.frontend.trans hscan, by rw [hgoes.environment]; exact hdirectory, htree⟩
  have hnone : g₀.KnowsGlobal := fun includes hsome => by cases hnew.symm.trans hsome
  have hknows : g.KnowsGlobal :=
    hgoes.knowsGlobal ⟨hscan ▸ Frontend.listsAbsolute_scan, hdirectory⟩ hnone
  have hproject : ∀ part ∈ g.parts, part.IsRegular := by
    rw [hgoes.parts]
    exact hparts
  exact ⟨holds_collectGlobal_iff hg hproject, fun part => holds_collectPart_iff hg hknows⟩

/-- A part with one source. -/
def pairPart : ProjectPart := ⟨"pair", [], [], [.ofString "/a.cpp"]⟩

/-- A source, and a header beside it that it includes. -/
def pair : Generator where
  parts := [pairPart]
  environment := ⟨"clang++", .ofString "/out", .root⟩
  frontend := .scan
  workspace.tree.entries := [
    ([(Path.ofString "a.cpp").bytes], .file (Path.ofString "#include \"x.h\"\n").bytes),
    ([(Path.ofString "x.h").bytes], .file [])]
  workspace.tree.here := []
  workspace.table := .empty
  workspace.sink := .empty

theorem isPlain_pair : pair.workspace.tree.IsPlain :=
  FileTree.isPlain_of_entries (by simp [pair])

theorem isRegular_pairPart : pairPart.IsRegular := by
  refine ⟨fun file hfile => ?_, fun file hfile => ?_, Settings.isOpenEnded_nil⟩
  · rw [List.mem_singleton.1 hfile]
    rfl
  · rw [List.mem_singleton.1 hfile]
    exact Path.isText_ofString _

theorem reachesFrom_pairPart :
    pair.ReachesFrom [] (fun _ => False) pairPart (.ofString "/x.h") := by
  refine ⟨.ofString "/a.cpp", List.mem_cons_self, (Path.ofString "#include \"x.h\"\n").bytes, rfl,
    ?_⟩
  refine .start (i := ⟨.ofString "/a.cpp", .root, ⟨.quoted, "x.h".toList⟩⟩) ?_ rfl id
  decide +kernel

/-- The header is one that all parts include, so the only part does not add it. -/
theorem includes_are_reached_pair :
    pair.collectGlobal.1.Holds pair.collectGlobal.2.workspace.table (.ofString "/x.h") ∧
      ∃ found, (pair.collectPart pairPart).1 = .ok found ∧
        ¬found.Holds (pair.collectPart pairPart).2.workspace.table (.ofString "/x.h") := by
  have hparts : ∀ part ∈ pair.parts, part.IsRegular := fun part hpart =>
    List.mem_singleton.1 hpart ▸ isRegular_pairPart
  obtain ⟨hglobal, hpart⟩ := includes_are_reached .refl rfl rfl rfl hparts isPlain_pair
  have hholds : pair.collectGlobal.1.Holds pair.collectGlobal.2.workspace.table
      (.ofString "/x.h") := by
    refine (hglobal _).2 ⟨by decide +kernel, ⟨pairPart, List.mem_cons_self, by decide⟩, ?_⟩
    intro part hmem _
    rw [List.mem_singleton.1 hmem]
    exact reachesFrom_pairPart
  obtain ⟨found, hfound, hiff⟩ := hpart pairPart isRegular_pairPart
  refine ⟨hholds, found, hfound, fun h => ?_⟩
  obtain ⟨-, file, -, source, -, hreach⟩ := (hiff _).1 h
  exact hreach.not_avoid hholds

end Generator

end PrecompiledHeaders
