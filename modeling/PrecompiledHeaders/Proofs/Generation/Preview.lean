import PrecompiledHeaders.Proofs.Frontend.Footprint
import PrecompiledHeaders.Proofs.Generation.Likeness
import PrecompiledHeaders.Proofs.Generation.NewHeaders

/-!
# Looking ahead of a pass

What a pass will find can be looked up without making anything: the headers that all parts include,
those that a part adds, and how its precompiled header will be made. In a pass the headers of a part
are only collected when other files were written already. So that agrees with the pass if the scans
for the parts look into old files only, whatever the pass has made by then (`Generator.LooksBack`).

While the parts are made one after the other, the files are those from the start but for what was
made, and the headers that all parts include are those that were found at the start
(`Generator.Follows`). So each part finds what it would have found at the start, though other ids
may have been given to its headers (`Generator.Foresees`).
-/

namespace PrecompiledHeaders.Generator

open FileTree PathTable

variable {g g' start written compiled : Generator} {part : ProjectPart} {parts : List ProjectPart}
  {stem : List Char} {directory : Path} {includes : IncludeSet} {shared : List Path}

/-! ### What a pass makes -/

/-- Whether a path is one that a file with a stem is written to. The compiler finds the path of a
    precompiled header among its arguments, and writes to what that path is shown as. -/
def IsWritten (directory : Path) (stem : List Char) (p : Path) : Prop :=
  p = headerFile directory stem ∨
    p = (Path.ofString (precompiledFile directory stem).display).normalize

/-- Whether a path is that of a directory above the files with a stem. -/
def IsAbove (directory : Path) (stem : List Char) (p : Path) : Prop :=
  p ∈ (headerFile directory stem).ancestors.tail

/-- Whether files have a stem that a pass makes. -/
def HasStem (g : Generator) (stem : List Char) : Prop :=
  stem = globalStem ∨ ∃ part ∈ g.parts, stem = partStem part.id

/-- Whether a pass writes to a path. -/
def WritesTo (g : Generator) (p : Path) : Prop :=
  ∃ stem, g.HasStem stem ∧ IsWritten g.environment.outputDirectory stem p

/-- Whether a pass makes a directory, unless it is there. -/
def MakesDirectory (g : Generator) (p : Path) : Prop :=
  ∃ stem, g.HasStem stem ∧ IsAbove g.environment.outputDirectory stem p

/-- What is made when a header file is written and compiled. -/
theorem exists_gains_of_emission (hscan : g.frontend = .scan) (htree : g.workspace.tree.IsTree)
    (hd : directory.isAbsolute) {text : Bytes} {arguments : List String} {heading : String}
    {base : Option Path}
    (hwrite : g.writeHeader (headerFile directory stem) text = (.ok (), written))
    (hemit : written.emit (Task.arguments arguments (.emit (headerFile directory stem)
        (precompiledFile directory stem) base)) heading (headerFile directory stem) =
      (.ok (), compiled)) :
    ∃ tree, compiled = g.withTree tree ∧
      Gains (IsWritten directory stem) (IsAbove directory stem) g.workspace.tree tree := by
  have hheader : (headerFile directory stem).isAbsolute := Path.isAbsolute_join hd _
  have hshown : (Path.ofString (precompiledFile directory stem).display).isAbsolute :=
    Path.isAbsolute_ofString_display (Path.isAbsolute_join hd _)
  obtain ⟨tree, rfl, hgains⟩ := writeHeader_gains htree hwrite
  obtain ⟨tree', rfl, hgains', -⟩ :=
    emit_gains (g := g.withTree tree) (hgains.grows.isTree htree) hscan hemit
  refine ⟨tree', rfl, (hgains.mono (fun _ => .inl) fun _ => id).trans
    (hgains'.mono (fun p houtput => .inr ?_) fun _ => False.elim)⟩
  simp only [Settings.absolute, Settings.output_emit arguments _ base hheader, Option.map_some,
    Option.some.injEq, Path.normalizeFrom_of_isAbsolute hshown] at houtput
  exact houtput.symm

/-! ### In the course of a pass -/

/-- Whether a generator scans a tree as there is one on a disk, has absolute directories, and knows
    nothing of its parts yet. -/
structure IsReady (g : Generator) : Prop where
  frontend : g.frontend = .scan
  directory : g.environment.workingDirectory.isAbsolute = true
  output : g.environment.outputDirectory.isAbsolute = true
  isTree : g.workspace.tree.IsTree
  unknown : g.globalIncludes = none

/-- Whether the scans for a part look into old files only, whatever of its files and directories a
    pass has made. -/
def LooksBack (g : Generator) (part : ProjectPart) : Prop :=
  ∀ tree, Gains g.WritesTo g.MakesDirectory g.workspace.tree tree → ∀ file ∈ part.files,
    Scan.LooksBack g.WritesTo g.workspace.tree tree
      (Task.arguments part.arguments
        (.preprocess (g.environment.workingDirectory.normalizeFrom file)))
      g.environment.workingDirectory

/-- What is there in the course of a pass: the files from the start with what the pass has made; and
    the headers that all parts include, as they were found at the start. -/
structure Follows (start g : Generator) (includes : IncludeSet) (shared : List Path) : Prop where
  environment : g.environment = start.environment
  gains : Gains start.WritesTo start.MakesDirectory start.workspace.tree g.workspace.tree
  excludes : g.Excludes includes shared
  alike : IncludeSet.Alike start.collectGlobal.2.workspace.table g.workspace.table
    start.collectGlobal.1 includes
  isThere : ∀ q ∈ shared, start.workspace.tree.HasEntry q

/-- Files are written, ids are given, and the rest stays as it is. -/
theorem Follows.goesOn (hf : Follows start g includes shared)
    (henvironment : g'.environment = g.environment) (hexcludes : g'.Excludes includes shared)
    (hgains : Gains start.WritesTo start.MakesDirectory g.workspace.tree g'.workspace.tree)
    (hle : g.workspace.table ≤ g'.workspace.table) : Follows start g' includes shared :=
  ⟨henvironment.trans hf.environment, hf.gains.trans hgains, hexcludes,
    hf.alike.mono (PathTable.le_refl _) hle, hf.isThere⟩

theorem mem_files_of_mem_units {projectFiles excluded : List Path} {arguments : List String}
    {unit : Path} (h : unit ∈ (g.partCollector arguments part projectFiles excluded).units) :
    ∃ file ∈ part.files, g.environment.workingDirectory.normalizeFrom file = unit := by
  obtain ⟨file, hfile, heq⟩ := List.mem_map.1 (Path.mem_of_mem_dedup h)
  exact ⟨file, Path.mem_of_mem_dedup hfile, heq⟩

/-- Files are old to the frontend of the collector for a part, so it finds in them what it would have
    found at the start. -/
theorem Follows.toOption_preprocessAll (hready : start.IsReady) (hback : start.LooksBack part)
    (hf : Follows start g includes shared) :
    List.Forall₂ (fun r r' => r.toOption = r'.toOption)
      ((start.addingCollector part shared).preprocessAll start.workspace.tree
        (start.addingCollector part shared).units).1
      ((start.addingCollector part shared).preprocessAll g.workspace.tree
        (start.addingCollector part shared).units).1 := by
  have hscan : (start.addingCollector part shared).frontend = .scan := hready.frontend
  have hleaves : (start.addingCollector part shared).frontend.LeavesFiles :=
    hscan ▸ Frontend.leavesFiles_scan
  rw [Collector.preprocessAll_of_leavesFiles hleaves,
    Collector.preprocessAll_of_leavesFiles hleaves, List.forall₂_map_left_iff,
    List.forall₂_map_right_iff, List.forall₂_same]
  intro unit hunit
  obtain ⟨file, hfile, rfl⟩ := mem_files_of_mem_units hunit
  rw [hscan]
  refine (Scan.toOption_preprocess hf.gains (hback _ hf.gains file hfile) fun p hp => ?_).symm
  -- The excluded headers have been there from the start.
  obtain ⟨q, hq, rfl⟩ := List.mem_map.1 hp
  have hnormal := hf.excludes.isNormal q hq
  rw [hnormal.normalizeFrom_eq, hnormal.normalizeFrom_eq]
  exact hf.gains.grows.identity (hf.isThere q hq)

/-- What is collected for a part is what would have been collected at the start. -/
theorem Follows.collectPart (hready : start.IsReady) (hback : start.LooksBack part)
    (hf : Follows start g includes shared) {found : IncludeSet}
    (h : g.collectPart part = (.ok found, g')) : Follows start g' includes shared ∧
      ∃ foreseen viewed, start.collectPart part = (.ok foreseen, viewed) ∧
        List.Forall₂ (SamePath viewed.workspace.table g'.workspace.table) foreseen.order
          found.order := by
  obtain ⟨hexcludes, -, htree, hle⟩ := hf.excludes.collectPart h
  have hlater : g.collectPart part = _ := collectPart_of_known hf.excludes.known hf.excludes.resolve
  have hunknown : start.knownGlobal = start.collectGlobal := by rw [knownGlobal, hready.unknown]
  have hresolve : start.collectGlobal.2.workspace.table.resolve start.collectGlobal.1.order =
      .ok shared := (SamePath.resolve_eq hf.alike.order).trans hf.excludes.resolve
  have hearlier : start.collectPart part = _ := collectPart_of_resolve (by rwa [hunknown])
  rw [hunknown] at hearlier
  -- Both times the same collector is at work.
  have hcollector : g.addingCollector part shared = start.addingCollector part shared := by
    simp only [addingCollector, partCollector, collector, hf.environment, hf.excludes.frontend,
      hready.frontend]
  have hkept : start.collectGlobal.2.workspace.tree = start.workspace.tree :=
    tree_collectParts_of_leavesFiles (hready.frontend ▸ Frontend.leavesFiles_scan) _ _
  have hresults := hf.toOption_preprocessAll hready hback
  rw [← hkept] at hresults
  have hfound : IncludeSet.Alike
      ((start.addingCollector part shared).collect start.collectGlobal.2.workspace).2.table
      ((start.addingCollector part shared).collect g.workspace).2.table
      ((start.addingCollector part shared).collect start.collectGlobal.2.workspace).1.found
      ((start.addingCollector part shared).collect g.workspace).1.found :=
    Collector.collect_found_alike rfl hresults
  have henvironment : g'.environment = g.environment :=
    ((Acts.collectPart g part).goesOn.behind h).environment
  rw [hcollector] at hlater
  cases h.symm.trans hlater
  exact ⟨hf.goesOn henvironment hexcludes (htree ▸ .refl _ _ _) hle, _, _, hearlier, hfound.order⟩

/-- Whether what was made for a part is what could be looked up at the start. -/
structure Foresees (start g : Generator) (part : ProjectPart) (made : Artifact × PartIncludes) :
    Prop where
  scope : made.1.scope = .part part.id
  commandLine : made.1.commandLine = start.commandLine (start.partEmitArguments part)
  names : made.2.part = part.id
  includes : ∃ foreseen viewed, start.collectPart part = (.ok foreseen, viewed) ∧
    List.Forall₂ (SamePath viewed.workspace.table g.workspace.table) foreseen.order made.2.includes

theorem Foresees.mono {made : Artifact × PartIncludes} (h : Foresees start g part made)
    (hle : g.workspace.table ≤ g'.workspace.table) : Foresees start g' part made := by
  obtain ⟨foreseen, viewed, hcollect, hsame⟩ := h.includes
  exact { h with includes :=
    ⟨foreseen, viewed, hcollect, SamePath.mono_all hsame (PathTable.le_refl _) hle⟩ }

/-- A part is made as foreseen. -/
theorem Follows.makePart (hready : start.IsReady) (hmem : part ∈ start.parts)
    (hback : start.LooksBack part) (hf : Follows start g includes shared)
    {made : Artifact × PartIncludes} (h : g.makePart part = (.ok made, g')) :
    Follows start g' includes shared ∧ Foresees start g' part made ∧
      g.workspace.table ≤ g'.workspace.table := by
  have hle := (Acts.makePart g part).goesOn.behind h |>.le
  obtain ⟨hexcludes, -⟩ := hf.excludes.makePart h
  obtain ⟨found, collected, text, written, compiled, hcollect, -, hwrite, hemit, rfl, rfl⟩ :=
    makePart_eq_ok h
  obtain ⟨hcollected, hforeseen⟩ := hf.collectPart hready hback hcollect
  rw [partHeaderFile, hf.environment] at hwrite
  rw [partEmitArguments, partHeaderFile, partFile, hf.environment] at hemit
  obtain ⟨tree, rfl, hgains⟩ := exists_gains_of_emission hcollected.excludes.frontend
    hcollected.excludes.isTree hready.output hwrite hemit
  have hstem : start.HasStem (partStem part.id) := .inr ⟨part, hmem, rfl⟩
  refine ⟨hcollected.goesOn rfl hexcludes (hgains.mono (fun _ hp => ⟨_, hstem, hp⟩)
    fun _ hp => ⟨_, hstem, hp⟩) (PathTable.le_refl _), ⟨rfl, ?_, rfl, hforeseen⟩, hle⟩
  simp only [partProduct, commandLine, partEmitArguments, partHeaderFile, partFile, globalFile,
    hf.environment]

/-- Parts that are made one after the other are made as foreseen. -/
theorem Follows.makeParts (hready : start.IsReady) (hmem : ∀ part ∈ parts, part ∈ start.parts)
    (hback : ∀ part ∈ start.parts, start.LooksBack part) (hf : Follows start g includes shared)
    {made : List (Artifact × PartIncludes)} (h : g.makeParts parts = (.ok made, g')) :
    List.Forall₂ (Foresees start g') parts made ∧ g.workspace.table ≤ g'.workspace.table := by
  induction parts generalizing g made with
  | nil =>
    cases h
    exact ⟨.nil, PathTable.le_refl _⟩
  | cons part rest ih =>
    obtain ⟨first, after, others, hfirst, hrest, rfl⟩ := makeParts_cons_eq_ok h
    have hpart := hmem part List.mem_cons_self
    obtain ⟨hafter, hforeseen, hle⟩ := hf.makePart hready hpart (hback part hpart) hfirst
    obtain ⟨hothers, hle'⟩ := ih (fun other hother => hmem other (List.mem_cons_of_mem _ hother))
      hafter hrest
    exact ⟨.cons (hforeseen.mono hle') hothers, PathTable.le_trans hle hle'⟩

/-! ### A whole pass -/

/-- When the precompiled header for all parts is made, only its files are new, and its headers are
    those that were found at the start. -/
theorem IsReady.makeGlobal (hready : g.IsReady) {artifact : Artifact}
    (h : g.withoutProducts.makeGlobal = (.ok artifact, g')) : ∃ includes shared,
      Follows g g' includes shared ∧ artifact.includes = includes.order ∧
        g'.globalArtifact = some artifact := by
  obtain ⟨text, written, compiled, -, hwrite, hemit, rfl, rfl⟩ := makeGlobal_eq_ok h
  obtain ⟨shared, hexcludes, htree⟩ := exists_excludes_collectGlobal
    (g := g.withoutProducts.withoutGlobal) hready.frontend hready.directory hready.isTree
  obtain ⟨tree, rfl, hgains⟩ := exists_gains_of_emission hexcludes.frontend hexcludes.isTree
    hready.output hwrite hemit
  have hsame : g.Shares g.workspace.sink g.workspace.sink g.withoutProducts.withoutGlobal :=
    ⟨rfl, rfl, rfl, rfl, [], rfl, rfl⟩
  have hgains' : Gains g.WritesTo g.MakesDirectory g.workspace.tree tree :=
    htree ▸ hgains.mono (fun _ hp => ⟨_, .inl rfl, hp⟩) fun _ hp => ⟨_, .inl rfl, hp⟩
  refine ⟨_, shared, ⟨rfl, hgains',
    hexcludes.of_grows rfl rfl rfl hgains.grows (PathTable.le_refl _), hsame.collectGlobal_alike,
    fun q hq => ?_⟩, rfl, rfl⟩
  have hthere := hexcludes.isThere q hq
  rwa [htree] at hthere

/-- A pass finds what could be looked up before it: the headers that all parts include, and what is
    made for each part. -/
theorem IsReady.generate (hready : g.IsReady) (hback : ∀ part ∈ g.parts, g.LooksBack part)
    (h : g.generate = (.ok (), g')) : ∃ artifact made,
      g'.globalArtifact = some artifact ∧
      List.Forall₂ (SamePath g.collectGlobal.2.workspace.table g'.workspace.table)
        g.collectGlobal.1.order artifact.includes ∧
      g'.partArtifacts = made.map Prod.fst ∧ g'.partIncludes = made.map Prod.snd ∧
      List.Forall₂ (Foresees g g') g.parts made := by
  rcases g.generate_cases with ⟨e, failed, hfailed, -⟩ |
    ⟨artifact, started, made, finished, hglobal, hmade, hdone⟩
  · cases hfailed.symm.trans h
  cases hdone.symm.trans h
  obtain ⟨includes, shared, hf, hincludes, hartifact⟩ := hready.makeGlobal hglobal
  obtain ⟨hforeseen, hle⟩ := hf.makeParts hready (fun _ => id) hback hmade
  have hkept := ((Acts.makeParts started g.parts).behind hmade).proceeds
  refine ⟨artifact, made, ?_, ?_, rfl, rfl, hforeseen.imp fun _ _ hpart =>
    hpart.mono (PathTable.le_refl _)⟩
  · obtain ⟨_, _, _, rfl⟩ := hkept
    exact hartifact
  · rw [hincludes]
    exact SamePath.mono_all hf.alike.order (PathTable.le_refl _) hle

/-! ### Trees without links -/

theorem isGenerated_of_writesTo (ho : g.environment.outputDirectory.isAbsolute)
    (htext : g.environment.outputDirectory.IsText) {p : Path} (h : g.WritesTo p) :
    p.isAbsolute = true ∧ g.IsGenerated p.location := by
  obtain ⟨stem, hstem, hp⟩ := h
  have hproper : IsStem stem := by
    rcases hstem with rfl | ⟨part, -, rfl⟩
    · exact isStem_globalStem
    · exact isStem_partStem part.id
  rcases hp with rfl | rfl
  · exact ⟨Path.isAbsolute_join ho _, stem, hstem, .inl rfl⟩
  · have htarget : (precompiledFile g.environment.outputDirectory stem).isAbsolute :=
      Path.isAbsolute_join ho _
    have hshown : Path.ofString (precompiledFile g.environment.outputDirectory stem).display =
        precompiledFile g.environment.outputDirectory stem :=
      (htext.join (isName_fileName hproper isEnding_precompiled).not_mem
        (isText_fileName stem ".pch")).ofString_display
    rw [hshown]
    exact ⟨(Path.isNormal_normalize htarget).isAbsolute, stem, hstem,
      .inr (Path.location_normalize htarget)⟩

/-- In a tree without links, the scans for a part look into old files only if no unit of the part is
    in the output directory and no include reaches it, whatever is generated there. -/
theorem IsReady.looksBack (hready : g.IsReady) (hsound : g.workspace.tree.IsSound)
    (htext : g.environment.outputDirectory.IsText) (hpart : part.IsRegular)
    (hunits : ∀ file ∈ part.files, ¬g.environment.outputDirectory.IsBelow file)
    (hspares : ∀ tree, Evolves g.IsGenerated g.workspace.tree tree →
      (g.withTree tree).SparesOutput part.arguments part) : g.LooksBack part := by
  intro tree hgains file hfile
  have hwritten (q : Path) (hq : g.WritesTo q) := isGenerated_of_writesTo hready.output htext hq
  have habs : ∀ q, g.WritesTo q → q.isAbsolute = true := fun q hq => (hwritten q hq).1
  have hevolves : Evolves g.IsGenerated g.workspace.tree tree :=
    (hgains.evolves hready.isTree hsound habs).mono fun _ ⟨q, hq, heq⟩ => heq ▸ (hwritten q hq).2
  -- What is not in the output directory is old.
  have hold {p : Path} (hp : p.IsNormal) (hbelow : ¬g.environment.outputDirectory.IsBelow p) :
      IsOld g.WritesTo g.workspace.tree tree p :=
    hgains.isOld hready.isTree hsound habs hp fun q hq heq =>
      hbelow ((hwritten q hq).2.isBelow.of_location_eq heq.symm)
  have hfileabs := hpart.isAbsolute file hfile
  have hnormal : file.normalize.IsNormal := Path.isNormal_normalize hfileabs
  have hunit := (hpart.isText file hfile).normalize hfileabs
  have htakes := hpart.arguments.takesInput
  rw [Path.normalizeFrom_of_isAbsolute hfileabs]
  have habsolute := Scan.absolute_preprocess g.environment.workingDirectory htakes hnormal hunit
  have hbases : ((Settings.ofArguments (Task.arguments part.arguments
      (.preprocess file.normalize))).absolute g.environment.workingDirectory).bases = [] := by
    rw [habsolute]
    simp [Settings.absolute, hpart.arguments.bases]
  refine ⟨fun unit hinput => ?_, by simp [hbases], by simp [hbases],
    fun unit hinput p hreached => ?_⟩
  all_goals
    rw [habsolute] at hinput
    cases hinput
  · exact hold hnormal fun hbelow => hunits file hfile
      (hbelow.of_location_eq (Path.location_normalize hfileabs).symm)
  · have hp : p.IsNormal := hreached.isNormal hready.directory hnormal.isAbsolute
    obtain ⟨source, hsource, hreach⟩ := hreached
    rw [Scan.search_preprocess _ htakes hnormal hunit,
      Scan.roots_preprocess _ htakes hnormal hunit] at hreach
    exact hold hp (hspares tree hevolves p hp ⟨file, hfile, source, hsource,
      hp.normalize_eq.symm ▸ hreach⟩)

/-! ### The project with one header

Files go into `/out`, which is written without slashes at its end now. -/

theorem headerFile_out {stem : List Char} (hstem : IsStem stem) :
    headerFile (pairIn 0).environment.outputDirectory stem =
      headerFile pair.environment.outputDirectory stem :=
  Path.join_withSlashes_zero (isName_fileName hstem isEnding_header).not_mem (by decide) (by decide)

theorem precompiledFile_out {stem : List Char} (hstem : IsStem stem) :
    precompiledFile (pairIn 0).environment.outputDirectory stem =
      precompiledFile pair.environment.outputDirectory stem :=
  Path.join_withSlashes_zero (isName_fileName hstem isEnding_precompiled).not_mem (by decide)
    (by decide)

theorem generates_pair : pair.generate = (.ok (), { pairStartedAt (.ofString "/out") with
    workspace := ⟨pairPartEmitted, pairTable, .empty⟩
    partArtifacts := [((pairStartedAt (.ofString "/out")).partProduct pairPart .empty).1]
    partIncludes := [((pairStartedAt (.ofString "/out")).partProduct pairPart .empty).2]
    stage := .done }) := by
  have hstem := isStem_partStem pairPart.id
  have harguments : (pairIn 0).globalEmitArguments = pair.globalEmitArguments := by
    simp only [globalEmitArguments, globalHeaderFile, globalFile, headerFile_out isStem_globalStem,
      precompiledFile_out isStem_globalStem]
    rfl
  have harguments' : (pairStarted 0).partEmitArguments pairPart =
      pair.partEmitArguments pairPart := by
    simp only [partEmitArguments, partHeaderFile, partFile, globalFile]
    rw [← headerFile_out hstem, ← precompiledFile_out hstem,
      ← precompiledFile_out isStem_globalStem]
    rfl
  refine generate_pairAt (fun g htree => ?_) ?_ (fun g htree => ?_) ?_
  · exact headerFile_out isStem_globalStem ▸ writeHeader_pairIn_global (by decide) g htree
  · exact harguments ▸ compile_pairIn 0
  · exact headerFile_out hstem ▸ writeHeader_pairStarted (by decide) g htree
  · exact harguments' ▸ compile_pairStarted 0

theorem looksBack_pair : pair.LooksBack pairPart := by
  have hready : pair.IsReady := ⟨rfl, rfl, rfl, ⟨isSound_pair.above, rfl⟩, rfl⟩
  refine hready.looksBack isSound_pair (Path.isText_ofString _) isRegular_pairPart
    (fun file hfile => ?_) fun tree => sparesOutput_pairAt (by decide)
  rw [List.mem_singleton.1 hfile]
  exact not_isBelow_out (by decide) isNormal_source_pair (by decide)

/-! ### A link in the output directory

Where there are links, it is not enough that includes spare the output directory: a header file may
be written through a link, and be a header of a source then. -/

/-- The source of the pair, and a link in the output directory to its header, which is not there. -/
def aliasedTree : FileTree where
  entries := [
    (locationOf ["a.cpp"], .file (Path.ofString "#include \"x.h\"\n").bytes),
    (locationOf ["out"], .directory),
    (locationOf ["out", "global-pch.h"], .link (.ofString "../x.h"))]
  here := []

/-- A generator for the source. -/
def aliased : Generator := pair.withTree aliasedTree

theorem isTree_aliasedTree : aliasedTree.IsTree := isTree_of_entries (by decide) rfl

/-- What is told about the header that is not there. -/
def aliasedSink : DiagnosticSink :=
  DiagnosticSink.empty.emit (Collector.missingInclude ⟨.ofString "/a.cpp", "x.h"⟩)

/-- The generator when it knows that there is no header for all parts. -/
def aliasedCollected : Generator :=
  { aliased.withoutGlobal with
    workspace := ⟨aliasedTree, .empty, aliasedSink⟩
    globalIncludes := some .empty
    stage := .includesKnown }

theorem preprocess_aliasedTree : Scan.preprocess aliasedTree
    ⟨"clang++", Task.arguments [] (.preprocess (.ofString "/a.cpp")), .root⟩ [] =
      .ok ⟨[], [⟨.ofString "/a.cpp", "x.h"⟩]⟩ := by
  have hwithin : Scan.preprocessWithin 3 aliasedTree [] .root [] (.ofString "/a.cpp") =
      some ⟨[], [⟨.ofString "/a.cpp", "x.h"⟩]⟩ := by
    decide +kernel
  exact Scan.preprocess_of_preprocessWithin Settings.isOpenEnded_nil isNormal_source_pair
    (Path.isText_ofString _) hwithin

theorem collectGlobal_aliased :
    aliased.withoutGlobal.collectGlobal = (.empty, aliasedCollected) := by
  have hcollect : (aliased.withoutGlobal.globalCollector pairPart).collect
      aliased.withoutGlobal.workspace =
        (aliased.withoutGlobal.globalCollector pairPart, ⟨aliasedTree, .empty, aliasedSink⟩) :=
    (Collector.collect_of_unit aliased.withoutGlobal.workspace Frontend.leavesFiles_scan
      (by decide) (by decide) preprocess_aliasedTree).trans rfl
  have hparts : aliased.withoutGlobal.collectParts aliased.withoutGlobal.workspace
      aliased.withoutGlobal.parts = ([.empty], ⟨aliasedTree, .empty, aliasedSink⟩) := by
    have hfiles : pairPart.headerAndSourcePaths ≠ [] := by decide
    refine (collectParts_of_files hfiles).trans ?_
    rw [hcollect]
    rfl
  simp only [collectGlobal, hparts]
  rfl

/-- Before the pass, the part adds nothing: its source has no header. -/
theorem collectPart_aliased : ∃ viewed, aliased.collectPart pairPart = (.ok .empty, viewed) := by
  have hresolve : PathTable.empty.resolve IncludeSet.empty.order = .ok [] := rfl
  have hknown : aliased.knownGlobal = (.empty, aliasedCollected) := collectGlobal_aliased
  have hpart : aliased.collectPart pairPart = _ := collectPart_of_resolve (by rwa [hknown])
  rw [hknown] at hpart
  have hcollect : (aliasedCollected.addingCollector pairPart []).collect
      aliasedCollected.workspace = _ :=
    Collector.collect_of_unit aliasedCollected.workspace Frontend.leavesFiles_scan
      (by decide) (by decide) preprocess_aliasedTree
  rw [hpart, hcollect]
  exact ⟨_, rfl⟩

/-- The precompiled header without a header. -/
def emptyBytes : Bytes := (Snapshot.encode? ⟨[]⟩).getD []

theorem encode?_empty : Snapshot.encode? ⟨[]⟩ = some emptyBytes := by
  obtain ⟨bytes, hbytes⟩ := Option.isSome_iff_exists.1
    (by decide +kernel : (Snapshot.encode? ⟨[]⟩).isSome = true)
  rw [emptyBytes, hbytes]
  rfl

/-- The tree when the header file was written: it is the header of the source. -/
def aliasedListed : FileTree := aliasedTree.set (locationOf ["x.h"]) (.file [])

/-- The tree with the precompiled header. -/
def aliasedEmitted : FileTree :=
  aliasedListed.set (locationOf ["out", "global-pch.pch"]) (.file emptyBytes)

theorem isEmission_aliased {stem : List Char} (hstem : IsStem stem) {base : Option Path}
    (hbase : ∀ b, base = some b → b = aliased.globalFile) :
    Scan.IsEmission [] .root (headerFile aliased.environment.outputDirectory stem)
      (precompiledFile aliased.environment.outputDirectory stem) base := by
  have hemitting := (isRegular_pairIn 0).emitting
  have hfile : (pairIn 0).globalFile = aliased.globalFile := precompiledFile_out isStem_globalStem
  have hemission := hemitting.isEmission hstem Settings.isBare_nil fun b hb => by
    rw [hbase b hb, ← hfile]
    exact ⟨isAbsolute_globalFile hemitting, isText_globalFile hemitting⟩
  rw [headerFile_out hstem, precompiledFile_out hstem] at hemission
  exact hemission

theorem compile_aliased : Scan.compile aliasedListed
    ⟨"clang++", aliased.globalEmitArguments, .root⟩ = (.ok (), aliasedEmitted) := by
  have hsource : aliasedListed.read aliased.globalHeaderFile.normalize = .ok [] := by decide +kernel
  have hemission := isEmission_aliased isStem_globalStem fun b (hb : none = some b) => by cases hb
  refine hemission.compile_of_walk hsource rfl (Include.walk_ofFile_nil _ _) rfl (fun _ => rfl)
    encode?_empty ?_
  with_unfolding_all rfl

/-- The generator when it has made the precompiled header for all parts. -/
def aliasedStarted : Generator :=
  { aliased.withWorkspace ⟨aliasedEmitted, .empty, aliasedSink⟩ with
    globalIncludes := some .empty
    globalArtifact := some (aliased.globalProduct .empty)
    emitted := true
    stage := .globalEmitted }

theorem makeGlobal_aliased :
    aliased.makeGlobal = (.ok (aliased.globalProduct .empty), aliasedStarted) := by
  have htext : headerText aliased.withoutGlobal.collectGlobal.2.workspace.table
      aliased.withoutGlobal.collectGlobal.1.order = .ok "" := by
    have hresolve : PathTable.empty.resolve IncludeSet.empty.order = .ok [] := rfl
    rw [collectGlobal_aliased]
    exact headerText_eq hresolve
  have hwrite : aliased.withoutGlobal.collectGlobal.2.writeHeader aliased.globalHeaderFile
      (Utf8.encode "".toList) = (.ok (), aliasedCollected.withTree aliasedListed) := by
    rw [collectGlobal_aliased]
    have hparent : aliased.globalHeaderFile.parent? = some (.ofString "/out") := by decide +kernel
    have hmade : aliasedTree.makeDirectories (.ofString "/out") = (.ok (), aliasedTree) := by
      with_unfolding_all rfl
    exact writeHeader_of_write hparent hmade (by with_unfolding_all rfl)
  refine (makeGlobal_of_emit htext hwrite (emit_of_compile rfl compile_aliased)).trans ?_
  rw [collectGlobal_aliased]
  rfl

/-- The generator when it knows what the part adds: the header. -/
def aliasedAdded : Generator :=
  { aliasedStarted with
    workspace := ⟨aliasedEmitted, pairTable, aliasedSink⟩
    stage := .partIncludesKnown "pair" }

theorem collectPart_aliasedStarted :
    aliasedStarted.collectPart pairPart = (.ok pairFound, aliasedAdded) := by
  have hwithin : Scan.preprocessWithin 3 aliasedEmitted [] .root [] (.ofString "/a.cpp") =
      some ⟨[.ofString "/x.h"], []⟩ := by
    decide +kernel
  have hpre : Scan.preprocess aliasedEmitted
      ⟨"clang++", Task.arguments [] (.preprocess (.ofString "/a.cpp")), .root⟩ [] =
        .ok ⟨[.ofString "/x.h"], []⟩ :=
    Scan.preprocess_of_preprocessWithin Settings.isOpenEnded_nil isNormal_source_pair
      (Path.isText_ofString _) hwithin
  have hcollect : (aliasedStarted.knownGlobal.2.addingCollector pairPart []).collect
      aliasedStarted.knownGlobal.2.workspace =
        ({ aliasedStarted.addingCollector pairPart [] with found := pairFound },
          aliasedAdded.workspace) := by
    have hid : aliasedStarted.workspace.table.id (.ofString "/x.h") = (⟨0⟩, pairTable) :=
      id_pairTable
    refine (Collector.collect_of_unit aliasedStarted.workspace Frontend.leavesFiles_scan
      (by decide) (by decide) hpre).trans ?_
    simp only [Collector.addHeaders, hid]
    rfl
  have hresolve : PathTable.empty.resolve IncludeSet.empty.order = .ok [] := rfl
  have hpart : aliasedStarted.collectPart pairPart = _ := collectPart_of_resolve hresolve
  rw [hpart, hcollect]
  rfl

/-- The tree with the header file of the part. -/
def aliasedPartListed : FileTree :=
  aliasedEmitted.set (locationOf ["out", "pair-59f46094a707c37a.h"]) (.file pairText)

/-- The tree with the precompiled header of the part. -/
def aliasedPartEmitted : FileTree :=
  aliasedPartListed.set (locationOf ["out", "pair-59f46094a707c37a.pch"]) (.file pairBytes)

theorem compile_aliased_part : Scan.compile aliasedPartListed
    ⟨"clang++", aliasedStarted.partEmitArguments pairPart, .root⟩ =
      (.ok (), aliasedPartEmitted) := by
  have hheader : (aliased.partHeaderFile pairPart).normalize =
      .ofString "/out/pair-59f46094a707c37a.h" := by
    rw [partHeaderFile, partStem_pair]
    decide
  have htarget : (aliased.partFile pairPart).normalize =
      .ofString "/out/pair-59f46094a707c37a.pch" := by
    rw [partFile, partStem_pair]
    decide
  have hsource : aliasedPartListed.read (aliased.partHeaderFile pairPart).normalize =
      .ok pairText := by
    rw [hheader]
    decide
  have hfind : aliasedPartListed.find? aliased.globalFile.normalize = some (.file emptyBytes) := by
    with_unfolding_all rfl
  have hbase : Scan.baseEntries aliasedPartListed [aliased.globalFile.normalize] = .ok [] := by
    rw [Scan.baseEntries, Snapshot.read_of_find? hfind encode?_empty]
    rfl
  have hwithin : Include.walkWithin (Scan.search [] .root) aliasedPartListed 3
      (Scan.visitedBefore aliasedPartListed .root [] [] (.ofString "/out/pair-59f46094a707c37a.h"))
      (Include.ofFile (.ofString "/out/pair-59f46094a707c37a.h") pairText) =
        some [.entered (.ofString "/x.h") []] := by
    decide +kernel
  have hwalk := Include.walk_of_walkWithin hwithin
  rw [← hheader] at hwalk
  have hemission := isEmission_aliased (isStem_partStem pairPart.id)
    fun b (hb : some aliased.globalFile = some b) => (Option.some.inj hb).symm
  refine hemission.compile_of_walk hsource hbase hwalk rfl (fun _ => rfl) encode?_pairSnapshot ?_
  rw [← partFile, htarget]
  with_unfolding_all rfl

/-- The generator after the pass. -/
def aliasedDone : Generator :=
  { aliasedStarted with
    workspace := ⟨aliasedPartEmitted, pairTable, aliasedSink⟩
    partArtifacts := [(aliasedStarted.partProduct pairPart pairFound).1]
    partIncludes := [(aliasedStarted.partProduct pairPart pairFound).2]
    stage := .done }

theorem makePart_aliased : aliasedStarted.makePart pairPart =
    (.ok (aliasedStarted.partProduct pairPart pairFound),
      { aliasedStarted with
        workspace := ⟨aliasedPartEmitted, pairTable, aliasedSink⟩
        stage := .partEmitted "pair" }) := by
  have htext : headerText aliasedAdded.workspace.table pairFound.order = .ok "#include </x.h>\n" :=
    (headerText_eq resolve_pairFound).trans (by with_unfolding_all decide)
  have hwrite : aliasedAdded.writeHeader (aliasedStarted.partHeaderFile pairPart) pairText =
      (.ok (), aliasedAdded.withTree aliasedPartListed) := by
    have hmade : aliasedEmitted.makeDirectories (.ofString "/out") = (.ok (), aliasedEmitted) := by
      with_unfolding_all rfl
    rw [partHeaderFile, partStem_pair]
    exact writeHeader_of_write (by decide +kernel) hmade (by with_unfolding_all rfl)
  exact (makePart_of_emit rfl collectPart_aliasedStarted htext hwrite
    (emit_of_compile rfl compile_aliased_part)).trans rfl

theorem generate_aliased : aliased.generate = (.ok (), aliasedDone) := by
  have hglobal : aliased.withoutProducts.makeGlobal = (.ok _, aliasedStarted) := makeGlobal_aliased
  have hparts : aliasedStarted.makeParts [pairPart] =
      (.ok [aliasedStarted.partProduct pairPart pairFound], { aliasedStarted with
        workspace := ⟨aliasedPartEmitted, pairTable, aliasedSink⟩
        stage := .partEmitted "pair" }) := by
    simp only [makeParts, makePart_aliased]
  exact (generate_of_makeParts hglobal hparts).trans rfl

end PrecompiledHeaders.Generator
