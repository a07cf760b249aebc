import PrecompiledHeaders.Proofs.Frontend.Rescan
import PrecompiledHeaders.Proofs.Generation.Failures
import PrecompiledHeaders.Proofs.Generation.PartSnapshots

/-!
# Warnings before failures

When includes are collected, one that leads to no file is a warning, and the pass goes on. When a
precompiled header is emitted, it is a failure, and the pass ends. No pass ends that way without
warning (`Generator.failing_emissions_are_foretold`): what the scan of a header file looks into,
units were scanned for before, with the same arguments and in the same tree but for the header file
itself.

For all parts together this is plain (`Generator.WritesGlobal.exists_isWritten`). A part is
collected with the headers excluded that all parts include, while its emission leaves out what the
precompiled header in front holds; these are the same files, as far as headers are excluded
(`Generator.IsBacked.holds`), and this stays so while one part after the other is made.
-/

namespace PrecompiledHeaders

open FileTree

/-- The precompiled header that is emitted for a listing has the headers in front, and behind them
    those that were entered. -/
theorem Listing.IsWritten.compile_eq_ok {l : Listing} {tree tree' tree'' : FileTree}
    (hl : l.IsWritten tree tree') (hnull : l.target.location ≠ locationOf ["dev", "null"])
    (h : Scan.compile tree' l.emission = (.ok (), tree'')) : ∃ scan,
      Scan.run tree' l.emission [] = .ok scan ∧ Evolves (· = l.target.location) tree' tree'' ∧
      Snapshot.read tree'' l.target.normalize = .ok ⟨scan.base ++ scan.entries⟩ := by
  obtain ⟨scan, bytes, hrun, hbytes, hwrite⟩ := hl.call.compile_eq_ok h
  have habs := hl.call.target.1
  rw [← Path.location_normalize habs] at hnull
  obtain ⟨hevolves, hfind⟩ := write_eq_ok (hl.evolves.isSound hl.isSound)
    (Path.isNormal_normalize habs).isAbsolute hnull hwrite
  rw [Path.location_normalize habs] at hevolves
  exact ⟨scan, hrun, hevolves, Snapshot.read_of_find? hfind hbytes⟩

namespace Generator

variable {g g' start written : Generator} {part : ProjectPart} {parts : List ProjectPart}
  {arguments : List String} {entries : List SnapshotEntry} {header p : Path} {tree : FileTree}
  {told : List Diagnostic}

/-! ### Ordinary projects -/

/-- Whether a generator emits for a project on a disk whose paths can all be listed, with arguments
    that take an input, and with no file of a part in the output directory. Each part has a file
    that can be read. -/
structure IsOrdinary (g : Generator) : Prop where
  emitting : g.IsEmitting
  here : g.workspace.tree.entryAt g.workspace.tree.here = some .directory
  isListable : g.workspace.tree.IsListable
  output : g.environment.outputDirectory.normalize.IsListable
  files : ∀ part ∈ g.parts, ∀ file ∈ part.files, file.isAbsolute = true ∧ file.IsText
  apart : ∀ part ∈ g.parts, ∀ file ∈ part.files, ¬g.environment.outputDirectory.IsBelow file
  arguments : ∀ part ∈ g.parts, Settings.TakesInput part.arguments
  isReadable : ∀ part ∈ g.parts, ∃ file ∈ part.files, ∃ source,
    g.workspace.tree.read file.normalize = .ok source

namespace IsOrdinary

theorem isTree (hg : g.IsOrdinary) : g.workspace.tree.IsTree := ⟨hg.emitting.isSound.above, hg.here⟩

/-- Generated files can be listed like all others. -/
theorem isListable_of_evolves (hg : g.IsOrdinary)
    (h : Evolves g.IsGenerated g.workspace.tree tree) : tree.IsListable := by
  intro p hp hfile
  by_cases hgenerated : g.IsGenerated p.location
  · obtain ⟨stem, hstem, hof⟩ := hgenerated
    refine hof.isListable ?_ hg.emitting.isAbsolute hg.output hp
    rcases hstem with rfl | ⟨part, -, rfl⟩
    · exact isStem_globalStem
    · exact isStem_partStem part.id
  · rw [h.isFile_iff hg.emitting.isSound hp hgenerated] at hfile
    exact hg.isListable p hp hfile

/-- The files of a part, as they are listed, are normal and text. -/
theorem isNormal_of_isListed (hg : g.IsOrdinary) (hpart : part ∈ g.parts) {unit : Path}
    (hlisted : Path.IsListed part.files unit) : unit.IsNormal ∧ unit.IsText := by
  obtain ⟨file, hfile, rfl⟩ := hlisted
  obtain ⟨habs, htext⟩ := hg.files part hpart file hfile
  exact ⟨Path.isNormal_normalize habs, htext.normalize habs⟩

/-- What can be read of a part is not generated, so it can still be read. -/
theorem isReadable_of_evolves (hg : g.IsOrdinary)
    (h : Evolves g.IsGenerated g.workspace.tree tree) (hpart : part ∈ g.parts) :
    ∃ file ∈ part.files, ∃ source, tree.read file.normalize = .ok source := by
  obtain ⟨file, hfile, source, hsource⟩ := hg.isReadable part hpart
  have habs := (hg.files part hpart file hfile).1
  refine ⟨file, hfile, source, h.read hg.emitting.isSound
    (Path.isNormal_normalize habs).isAbsolute (fun hgenerated => ?_) hsource⟩
  exact hg.apart part hpart file hfile
    (hgenerated.isBelow.of_location_eq (Path.location_normalize habs).symm)

theorem withoutProducts (hg : g.IsOrdinary) : g.withoutProducts.IsOrdinary := by
  have hemitting := hg.emitting
  exact ⟨⟨⟨hemitting.scanning.frontend, hemitting.scanning.directory, hemitting.scanning.isPlain⟩,
    hemitting.isSound, hemitting.isAbsolute, hemitting.isText⟩, hg.here, hg.isListable, hg.output,
    hg.files, hg.apart, hg.arguments, hg.isReadable⟩

end IsOrdinary

/-! ### Header files that are written -/

/-- A header file for what units have found is written into the tree in which they have found it. -/
theorem IsEmitting.exists_isWritten {stem : List Char} {l : Listing} (hg : g.IsEmitting)
    (htree : g.workspace.tree.IsTree) (hstem : IsStem stem)
    (hheader : l.header = headerFile g.environment.outputDirectory stem)
    (hcall : Scan.IsEmitCall l.arguments l.directory l.header l.target l.base)
    (hlistable : g.workspace.tree.IsListable)
    (hunit : ∀ unit ∈ l.units, unit.IsNormal ∧ unit.IsText)
    (hreadable : (Settings.ofArguments l.arguments).forcedIncludes ≠ [] →
      ∃ unit ∈ l.units, ∃ source, g.workspace.tree.read unit = .ok source)
    (hfound : ∀ p ∈ l.paths, ∃ unit found,
      l.Finds g.workspace.tree unit found ∧ p ∈ found.headers)
    (hwrite : g.writeHeader l.header l.text = (.ok (), g')) :
    ∃ tree, g' = g.withTree tree ∧ l.IsWritten g.workspace.tree tree := by
  have hnull : l.header.location ≠ locationOf ["dev", "null"] := by
    rw [hheader]
    exact location_headerFile_ne_null _ hstem
  obtain ⟨tree, rfl, hevolves, hfind⟩ :=
    writeHeader_eq_ok hg.isSound hcall.header.1 hnull hwrite
  obtain ⟨tree', heq, hgrows⟩ := writeHeader_grows htree hwrite
  have heq : tree = tree' := congrArg (fun g : Generator => g.workspace.tree) heq
  subst heq
  refine ⟨tree, rfl, hcall, hg.isSound, hevolves, hgrows, fun source hsource => ?_, hunit,
    hreadable, fun p hp => ?_, hfound⟩
  · exact eq_of_read_normalize (hevolves.isSound hg.isSound) hcall.header.1 hfind hsource
  · obtain ⟨unit, found, hfinds, hin⟩ := hfound p hp
    exact hlistable p (Scan.isNormal_of_mem_headers hcall.directory hfinds.2 hin)
      (Scan.isFile_of_mem_headers hfinds.2 hin).1

/-! ### What is told -/

theorem fails_iff (hscan : g.frontend = .scan) {cause : FrontendError} :
    g.Fails arguments cause ↔
      (Scan.compile g.workspace.tree (g.call arguments)).1 = .error cause := by
  rw [Fails, hscan, Frontend.scan]

/-- The header file for all parts as a listing. -/
def globalListing (g : Generator) (paths : List Path) : Listing where
  compiler := g.environment.compiler
  arguments := g.arguments
  directory := g.environment.workingDirectory
  units := g.parts.flatMap fun part => (g.globalCollector part).units
  excluded := []
  paths := paths
  header := g.globalHeaderFile
  target := g.globalFile
  base := none

theorem mem_units_globalListing (hg : g.IsOrdinary) {paths : List Path} {unit : Path} :
    unit ∈ (g.globalListing paths).units ↔ ∃ part ∈ g.parts, Path.IsListed part.files unit := by
  refine List.mem_flatMap.trans (exists_congr fun part => and_congr_right fun hpart => ?_)
  exact mem_units_iff hg.emitting.scanning.directory fun file hfile =>
    (hg.files part hpart file hfile).1

/-- Forced includes come from the arguments of some part, and that part has a unit. -/
theorem exists_readable_of_forced (hg : g.IsOrdinary)
    (hforced : (Settings.ofArguments g.arguments).forcedIncludes ≠ []) :
    ∃ unit, (∃ part ∈ g.parts, Path.IsListed part.files unit) ∧
      ∃ source, g.workspace.tree.read unit = .ok source := by
  have hne : g.parts ≠ [] := by
    intro hnil
    rw [arguments, hnil] at hforced
    exact hforced rfl
  obtain ⟨part, hpart⟩ := List.exists_mem_of_ne_nil _ hne
  obtain ⟨file, hfile, hsource⟩ := hg.isReadable part hpart
  exact ⟨_, ⟨part, hpart, file, hfile, rfl⟩, hsource⟩

theorem isEmitCall_globalListing (hg : g.IsOrdinary) (paths : List Path) :
    Scan.IsEmitCall (g.globalListing paths).arguments (g.globalListing paths).directory
      (g.globalListing paths).header (g.globalListing paths).target (g.globalListing paths).base := by
  simp only [globalListing]
  exact hg.emitting.isEmitCall isStem_globalStem (.flatMap hg.arguments) fun b hb => by cases hb

/-- What all parts include was found by some unit. -/
theorem exists_finds_globalListing (hg : g.IsOrdinary) {paths : List Path} {p : Path}
    (hp : p.IsNormal) (hholds : g.found.Holds g.collected.workspace.table p) : ∃ unit found,
      (g.globalListing paths).Finds g.workspace.tree unit found ∧ p ∈ found.headers := by
  have hscanning := hg.emitting.scanning
  obtain ⟨part, hpart, unit, hunit, found, hfound, hin⟩ :=
    exists_of_holds_collectGlobal (g := g.withoutGlobal) hscanning.frontend hscanning.directory
      hholds
  rw [hp.normalize_eq] at hin
  exact ⟨unit, found, ⟨List.mem_flatMap.2 ⟨part, hpart, hunit⟩, hfound⟩, hin⟩

/-- The header file for all parts lists what their units have found, and these have told what leads
    to no file. -/
theorem WritesGlobal.exists_isWritten (hg : g.IsOrdinary) (h : g.WritesGlobal written) :
    ∃ paths tree told, written = g.collected.withTree tree ∧
      (g.globalListing paths).IsWritten g.workspace.tree tree ∧
      (∀ p : Path, p.IsNormal → (p ∈ paths ↔ g.found.Holds g.collected.workspace.table p)) ∧
      g.collected.workspace.sink = g.workspace.sink.extend told ∧
      ∀ missing, (g.globalListing paths).Tells g.workspace.tree missing →
        Collector.missingInclude missing ∈ told := by
  obtain ⟨text, htext, hwrite⟩ := h
  have hscanning := hg.emitting.scanning
  obtain ⟨paths, hresolve, hnormal, hmem⟩ :=
    (collectGlobal_isSound hscanning.withoutGlobal.listsAbsolute).exists_resolve
  cases (headerText_eq hresolve).symm.trans htext
  have htree : g.collected.workspace.tree = g.workspace.tree := hscanning.tree_collected
  obtain ⟨told, hsink, htold⟩ :=
    exists_told_collectParts (g := g.withoutGlobal) hscanning.frontend g.workspace g.parts
  have hunit : ∀ unit ∈ (g.globalListing paths).units, unit.IsNormal ∧ unit.IsText := by
    intro unit hunit
    obtain ⟨part, hpart, hlisted⟩ := (mem_units_globalListing hg).1 hunit
    exact hg.isNormal_of_isListed hpart hlisted
  have hreadable : (Settings.ofArguments g.arguments).forcedIncludes ≠ [] →
      ∃ unit ∈ (g.globalListing paths).units, ∃ source,
        g.workspace.tree.read unit = .ok source := by
    intro hforced
    obtain ⟨unit, hunit, hsource⟩ := exists_readable_of_forced hg hforced
    exact ⟨unit, (mem_units_globalListing hg).2 hunit, hsource⟩
  have hfound : ∀ p ∈ paths, ∃ unit found,
      (g.globalListing paths).Finds g.workspace.tree unit found ∧ p ∈ found.headers :=
    fun p hp => exists_finds_globalListing hg (hnormal p hp) ((hmem p (hnormal p hp)).1 hp)
  obtain ⟨tree, heq, hwritten⟩ := hg.emitting.collected.exists_isWritten
    (l := g.globalListing paths) (htree ▸ hg.isTree) isStem_globalStem rfl
    (isEmitCall_globalListing hg paths) (htree ▸ hg.isListable) hunit (htree ▸ hreadable)
    (htree ▸ hfound) hwrite
  rw [htree] at hwritten
  refine ⟨paths, tree, told, heq, hwritten, hmem, hsink, fun missing htells => ?_⟩
  obtain ⟨unit, found, ⟨hunit, hfound⟩, hin⟩ := htells
  obtain ⟨part, hpart, hunit⟩ := List.mem_flatMap.1 hunit
  exact htold part hpart unit hunit found hfound missing hin

/-- What is there while parts are made: only generated files were written, diagnostics were added,
    and in front stands a precompiled header that holds all headers that are known of all parts,
    under whatever paths. -/
structure IsBacked (start g : Generator) (entries : List SnapshotEntry) : Prop where
  emitting : g.IsEmitting
  isTree : g.workspace.tree.IsTree
  environment : g.environment = start.environment
  evolves : Evolves start.IsGenerated start.workspace.tree g.workspace.tree
  front : Snapshot.read g.workspace.tree start.globalFile.normalize = .ok ⟨entries⟩
  knows : ∃ includes, g.globalIncludes = some includes ∧ includes.IsSound g.workspace.table
  holds : ∀ p : Path, p.IsNormal → g.HoldsGlobal p →
    ∃ e ∈ entries, g.workspace.tree.identity e.path = p
  told : ∃ told, g.workspace.sink = start.workspace.sink.extend told

/-- The files of a part are written, ids are given, and diagnostics are added. -/
theorem IsBacked.goesOn (hb : IsBacked start g entries) (hpart : part ∈ start.parts)
    {table : PathTable} {sink : DiagnosticSink} {stage : Stage}
    (hevolves : Evolves (IsFileOf start.environment.outputDirectory (partStem part.id))
      g.workspace.tree tree) (hgrows : Grows g.workspace.tree tree)
    (hle : g.workspace.table ≤ table) (hsink : ∃ told, sink = g.workspace.sink.extend told) :
    IsBacked start { g.withWorkspace ⟨tree, table, sink⟩ with stage } entries := by
  obtain ⟨includes, hsome, hsound⟩ := hb.knows
  have hg := hb.emitting
  have hemitting := hg.of_evolves hevolves table sink stage
  have habs : start.globalFile.isAbsolute = true :=
    Path.isAbsolute_join (hb.environment ▸ hg.isAbsolute) _
  refine ⟨hemitting, hgrows.isTree hb.isTree, hb.environment,
    hb.evolves.trans (hevolves.mono fun _ h => ⟨_, .inr ⟨part, hpart, rfl⟩, h⟩), ?_,
    ⟨includes, hsome, hsound.mono hle⟩, fun p hp hholds => ?_, ?_⟩
  · refine Snapshot.read_of_evolves hevolves hg.isSound (Path.isNormal_normalize habs).isAbsolute ?_
      hb.front
    rw [Path.location_normalize habs]
    exact not_isFileOf_globalFile start part
  · have hsome' : ({ g.withWorkspace ⟨tree, table, sink⟩ with stage } : Generator).globalIncludes =
        some includes := hsome
    have hbefore : g.HoldsGlobal p := (holdsGlobal_iff hsome p).2
      ((hsound.holds_iff_of_le hle).1 ((holdsGlobal_iff hsome' p).1 hholds))
    obtain ⟨e, he, heq⟩ := hb.holds p hp hbefore
    exact ⟨e, he, hgrows.identity_eq hg.scanning.isPlain hemitting.scanning.isPlain hp heq⟩
  · obtain ⟨told, htold⟩ := hb.told
    obtain ⟨others, rfl⟩ := hsink
    refine ⟨told ++ others, ?_⟩
    rw [DiagnosticSink.extend_append, ← htold]
    rfl

/-! ### The header file of a part -/

/-- The header file of a part as a listing. -/
def partListing (g : Generator) (part : ProjectPart) (excluded paths : List Path) : Listing where
  compiler := g.environment.compiler
  arguments := part.arguments
  directory := g.environment.workingDirectory
  units := (g.addingCollector part excluded).units
  excluded := (g.addingCollector part excluded).excluded
  paths := paths
  header := g.partHeaderFile part
  target := g.partFile part
  base := some g.globalFile

@[simp] theorem header_partListing (g : Generator) (part : ProjectPart)
    (excluded paths : List Path) :
    (g.partListing part excluded paths).header = g.partHeaderFile part := by
  rw [partListing]

@[simp] theorem target_partListing (g : Generator) (part : ProjectPart)
    (excluded paths : List Path) :
    (g.partListing part excluded paths).target = g.partFile part := by
  rw [partListing]

theorem emission_partListing (g : Generator) (part : ProjectPart) (excluded paths : List Path) :
    (g.partListing part excluded paths).emission = g.call (g.partEmitArguments part) := by
  simp only [Listing.emission, partListing, call, partEmitArguments]

theorem mem_units_partListing (hd : g.environment.workingDirectory.isAbsolute)
    (hfiles : ∀ file ∈ part.files, file.isAbsolute = true) {excluded paths : List Path}
    {unit : Path} :
    unit ∈ (g.partListing part excluded paths).units ↔ Path.IsListed part.files unit := by
  have hunits : (g.partListing part excluded paths).units =
      (g.partCollector part.arguments part part.headerAndSourcePaths excluded).units := rfl
  rw [hunits, mem_units_iff hd hfiles]

theorem isEmitCall_partListing (hg : g.IsEmitting) (htakes : Settings.TakesInput part.arguments)
    (excluded paths : List Path) :
    Scan.IsEmitCall (g.partListing part excluded paths).arguments
      (g.partListing part excluded paths).directory (g.partListing part excluded paths).header
      (g.partListing part excluded paths).target (g.partListing part excluded paths).base := by
  simp only [partListing]
  exact hg.isEmitCall (isStem_partStem part.id) htakes fun b hb => by
    cases hb
    exact ⟨isAbsolute_globalFile hg, isText_globalFile hg⟩

/-- A part has a unit that can be read, whatever was generated since the start. -/
theorem IsBacked.exists_readable (hb : IsBacked start g entries) (hstart : start.IsOrdinary)
    (hpart : part ∈ start.parts) : ∃ unit, Path.IsListed part.files unit ∧ ∃ source,
      g.workspace.tree.read unit = .ok source := by
  obtain ⟨file, hfile, hsource⟩ := hstart.isReadable_of_evolves hb.evolves hpart
  exact ⟨file.normalize, ⟨file, hfile, rfl⟩, hsource⟩

/-- What a part adds was found by one of its units. -/
theorem exists_finds_partListing (hg : g.IsScanning) {excluded paths : List Path} {p : Path}
    (hp : p.IsNormal)
    (hholds : ((g.addingCollector part excluded).collect g.workspace).1.found.Holds
      ((g.addingCollector part excluded).collect g.workspace).2.table p) : ∃ unit found,
      (g.partListing part excluded paths).Finds g.workspace.tree unit found ∧
        p ∈ found.headers := by
  obtain ⟨unit, hunit, found, hfound, hin⟩ :=
    Collector.exists_of_holds_collect hg.frontend hg.directory rfl hholds
  rw [hp.normalize_eq] at hin
  exact ⟨unit, found, ⟨hunit, hfound⟩, hin⟩

/-- Where the collection for a part has left the files alone, its header file is written as a
    listing. -/
theorem IsBacked.exists_isWritten_of_finds (hb : IsBacked start g entries)
    (hstart : start.IsOrdinary) (hpart : part ∈ start.parts) {excluded paths : List Path}
    {collected : Generator} {table : PathTable} {sink : DiagnosticSink}
    (hcollected : collected = { g.withWorkspace ⟨g.workspace.tree, table, sink⟩ with
      stage := .partIncludesKnown part.id })
    (hfound : ∀ p ∈ paths, ∃ unit found,
      (g.partListing part excluded paths).Finds g.workspace.tree unit found ∧ p ∈ found.headers)
    (hwrite : collected.writeHeader (g.partHeaderFile part)
      (Utf8.encode (String.join (paths.map includeLine)).toList) = (.ok (), written)) :
    ∃ tree, written = { g.withWorkspace ⟨tree, table, sink⟩ with
        stage := .partIncludesKnown part.id } ∧
      (g.partListing part excluded paths).IsWritten g.workspace.tree tree := by
  have hg := hb.emitting
  -- The units are the files of the part, of which one can be read.
  have hunits (unit : Path) : unit ∈ (g.partListing part excluded paths).units ↔
      Path.IsListed part.files unit :=
    mem_units_partListing hg.scanning.directory fun file hfile =>
      (hstart.files part hpart file hfile).1
  have hunit : ∀ unit ∈ (g.partListing part excluded paths).units, unit.IsNormal ∧ unit.IsText :=
    fun unit hunit => hstart.isNormal_of_isListed hpart ((hunits unit).1 hunit)
  have hreadable : ∃ unit ∈ (g.partListing part excluded paths).units, ∃ source,
      g.workspace.tree.read unit = .ok source := by
    obtain ⟨unit, hlisted, hsource⟩ := hb.exists_readable hstart hpart
    exact ⟨unit, (hunits unit).2 hlisted, hsource⟩
  subst hcollected
  have hemitting := hg.of_evolves (.refl (fun _ => False) _) table sink (.partIncludesKnown part.id)
  have hheader : (g.partListing part excluded paths).header =
      headerFile g.environment.outputDirectory (partStem part.id) := by
    rw [header_partListing, partHeaderFile]
  rw [← header_partListing g part excluded paths] at hwrite
  exact hemitting.exists_isWritten (l := g.partListing part excluded paths) hb.isTree
    (isStem_partStem part.id) hheader
    (isEmitCall_partListing hg (hstart.arguments part hpart) excluded paths)
    (hstart.isListable_of_evolves hb.evolves) hunit (fun _ => hreadable) hfound hwrite

/-- The header file of a part lists what its units have found, and these have told what leads to no
    file. -/
theorem IsBacked.exists_isWritten (hb : IsBacked start g entries) (hstart : start.IsOrdinary)
    (hpart : part ∈ start.parts) (h : g.WritesPart part written) :
    ∃ excluded paths tree table told,
      written = { g.withWorkspace ⟨tree, table, g.workspace.sink.extend told⟩ with
        stage := .partIncludesKnown part.id } ∧ g.workspace.table ≤ table ∧
      (∀ p ∈ excluded, p.IsNormal ∧ g.HoldsGlobal p) ∧
      (g.partListing part excluded paths).IsWritten g.workspace.tree tree ∧
      ∀ missing, (g.partListing part excluded paths).Tells g.workspace.tree missing →
        Collector.missingInclude missing ∈ told := by
  obtain ⟨includes, collected, text, hcollect, htext, hwrite⟩ := h
  obtain ⟨known, hsome, hknown⟩ := hb.knows
  have hscanning := hb.emitting.scanning
  obtain ⟨excluded, hresolve, hnormal, hholds⟩ := hknown.exists_resolve
  cases (collectPart_of_known hsome hresolve).symm.trans hcollect
  have htakes := (Collector.collect_takes (c := g.addingCollector part excluded)
    hscanning.listsAbsolute.frontend hscanning.directory g.workspace).2
  obtain ⟨told, hsink, htold⟩ := Collector.exists_told_collect
    (c := g.addingCollector part excluded) hscanning.leavesFiles g.workspace
  obtain ⟨paths, hpaths, hpathsNormal, hmem⟩ := (htakes.sound (.empty _)).exists_resolve
  cases (headerText_eq hpaths).symm.trans htext
  have hcollected : ({ g with
        workspace := ((g.addingCollector part excluded).collect g.workspace).2
        stage := .partIncludesKnown part.id } : Generator) =
      { g.withWorkspace ⟨g.workspace.tree,
          ((g.addingCollector part excluded).collect g.workspace).2.table,
          g.workspace.sink.extend told⟩ with stage := .partIncludesKnown part.id } := by
    rw [← hsink, ← hscanning.tree_collect _ _ _ _ g.workspace]
    rfl
  have hfound (p : Path) (hp : p ∈ paths) : ∃ unit found,
      (g.partListing part excluded paths).Finds g.workspace.tree unit found ∧ p ∈ found.headers :=
    exists_finds_partListing hscanning (hpathsNormal p hp) ((hmem p (hpathsNormal p hp)).1 hp)
  obtain ⟨tree, rfl, hwritten⟩ :=
    hb.exists_isWritten_of_finds hstart hpart hcollected hfound hwrite
  refine ⟨excluded, paths, tree, _, told, rfl, htakes.le, fun p hp => ⟨hnormal p hp, ?_⟩, hwritten,
    fun missing htells => ?_⟩
  · exact (holdsGlobal_iff hsome p).2 ((hholds p (hnormal p hp)).1 hp)
  · obtain ⟨unit, found, ⟨hunit, hfound⟩, hin⟩ := htells
    refine htold unit hunit found ?_ missing hin
    have hfrontend : (g.addingCollector part excluded).frontend = .scan := hscanning.frontend
    rw [hfrontend]
    exact hfound

theorem IsBacked.makePart {made : Artifact × PartIncludes} (hb : IsBacked start g entries)
    (hstart : start.IsOrdinary) (hpart : part ∈ start.parts)
    (h : g.makePart part = (.ok made, g')) : IsBacked start g' entries := by
  obtain ⟨includes, collected, text, written, compiled, hcollect, htext, hwrite, hemit, -, rfl⟩ :=
    makePart_eq_ok h
  obtain ⟨excluded, paths, tree, table, told, rfl, hle, -, hl, -⟩ :=
    hb.exists_isWritten hstart hpart ⟨includes, collected, text, hcollect, htext, hwrite⟩
  obtain ⟨tree', rfl, hgrows, hcompile⟩ := emit_grows
    (g := { g.withWorkspace ⟨tree, table, g.workspace.sink.extend told⟩ with
      stage := .partIncludesKnown part.id })
    (hl.grows.isTree hb.isTree) hb.emitting.scanning.frontend hemit
  have hnull : (g.partListing part excluded paths).target.location ≠
      locationOf ["dev", "null"] := by
    rw [target_partListing]
    exact location_precompiledFile_ne_null _ (isStem_partStem part.id)
  have hcompile : Scan.compile tree (g.partListing part excluded paths).emission = (.ok (), tree') := by
    rw [emission_partListing]
    exact hcompile
  obtain ⟨scan, -, hevolves, -⟩ := hl.compile_eq_ok hnull hcompile
  have hheader := hl.evolves
  rw [target_partListing] at hevolves
  rw [header_partListing] at hheader
  have hfiles (location : Location)
      (h : location = (g.partHeaderFile part).location ∨ location = (g.partFile part).location) :
      IsFileOf start.environment.outputDirectory (partStem part.id) location := hb.environment ▸ h
  exact hb.goesOn hpart ((hheader.mono fun _ h => hfiles _ (.inl h)).trans
    (hevolves.mono fun _ h => hfiles _ (.inr h))) (hl.grows.trans hgrows) hle ⟨told, rfl⟩

theorem IsBacked.makeParts {made : List (Artifact × PartIncludes)} (hb : IsBacked start g entries)
    (hstart : start.IsOrdinary) (hparts : ∀ part ∈ parts, part ∈ start.parts)
    (h : g.makeParts parts = (.ok made, g')) : IsBacked start g' entries := by
  induction parts generalizing g made with
  | nil =>
    cases h
    exact hb
  | cons part rest ih =>
    obtain ⟨first, after, others, hfirst, hrest, rfl⟩ := makeParts_cons_eq_ok h
    exact ih (hb.makePart hstart (hparts part List.mem_cons_self) hfirst)
      (fun other hother => hparts other (List.mem_cons_of_mem _ hother)) hrest

/-! ### A whole pass -/

/-- A source, and a header beside it that includes one which is not there. -/
def lackingTree : FileTree where
  entries := [
    ([(Path.ofString "a.cpp").bytes], .file (Path.ofString "#include \"x.h\"\n").bytes),
    ([(Path.ofString "x.h").bytes], .file (Path.ofString "#include \"gone.h\"\n").bytes)]
  here := []

/-- A generator for the source. -/
def lacking : Generator := (pairIn 0).withTree lackingTree

theorem isSound_lackingTree : lackingTree.IsSound :=
  isSound_of_entries (by simp [lackingTree, entryAt])

/-- The files are those of the pair. -/
theorem isFile_pair_of_lackingTree (hp : p.IsNormal) (h : lackingTree.isFile p = true) :
    pair.workspace.tree.isFile p = true := by
  rcases eq_or_eq_of_isFile isSound_lackingTree (by decide) hp h with rfl | rfl <;> decide

theorem isOrdinary_lacking : lacking.IsOrdinary := by
  have hemitting := (isRegular_pairIn 0).emitting
  have hfile (part : ProjectPart) (hpart : part ∈ lacking.parts) (file : Path)
      (hfile : file ∈ part.files) : file = .ofString "/a.cpp" := by
    rw [List.mem_singleton.1 hpart] at hfile
    exact List.mem_singleton.1 hfile
  refine ⟨⟨⟨rfl, rfl, isSound_lackingTree.isPlain⟩, isSound_lackingTree, hemitting.isAbsolute,
    hemitting.isText⟩, rfl, fun p hp h => ?_, ?_, fun part hpart file hmem => ?_,
    fun part hpart file hmem => ?_, fun part hpart => ?_, fun part hpart => ?_⟩
  · exact (isRegular_pairIn 0).isListable p hp (isFile_pair_of_lackingTree hp h)
  · have hout : lacking.environment.outputDirectory.normalize = .ofString "/out" := by decide
    rw [hout]
    exact ⟨Path.isText_ofString _, by with_unfolding_all decide, by with_unfolding_all decide,
      by with_unfolding_all decide⟩
  · rw [hfile part hpart file hmem]
    exact ⟨rfl, Path.isText_ofString _⟩
  · rw [hfile part hpart file hmem]
    exact not_isBelow_pairIn isNormal_source_pair (by decide) 0
  · rw [List.mem_singleton.1 hpart]
    exact Settings.takesInput_nil
  · rw [List.mem_singleton.1 hpart]
    exact ⟨.ofString "/a.cpp", List.mem_singleton_self _, _, rfl⟩

/-- The warning about the header that is not there. -/
def lackingWarning : Diagnostic := Collector.missingInclude ⟨.ofString "/x.h", "gone.h"⟩

/-- The generator when it knows what the source includes. -/
def lackingCollected : Generator :=
  { lacking.withoutGlobal with
    workspace := ⟨lackingTree, pairTable, DiagnosticSink.empty.emit lackingWarning⟩
    globalIncludes := some pairFound
    stage := .includesKnown }

theorem collectGlobal_lacking :
    lacking.withoutGlobal.collectGlobal = (pairFound, lackingCollected) := by
  have hwithin : Scan.preprocessWithin 3 lackingTree [] .root [] (.ofString "/a.cpp") =
      some ⟨[.ofString "/x.h"], [⟨.ofString "/x.h", "gone.h"⟩]⟩ := by
    decide +kernel
  have hpre : Scan.preprocess lackingTree
      ⟨"clang++", Task.arguments [] (.preprocess (.ofString "/a.cpp")), .root⟩ [] =
        .ok ⟨[.ofString "/x.h"], [⟨.ofString "/x.h", "gone.h"⟩]⟩ :=
    Scan.preprocess_of_preprocessWithin Settings.isOpenEnded_nil isNormal_source_pair
      (Path.isText_ofString _) hwithin
  have hcollect : (lacking.withoutGlobal.globalCollector pairPart).collect
      lacking.withoutGlobal.workspace =
        ({ pair.globalCollector pairPart with found := pairFound },
          ⟨lackingTree, pairTable, DiagnosticSink.empty.emit lackingWarning⟩) := by
    have hproject : (lacking.withoutGlobal.globalCollector pairPart).isProjectFile
        (.ofString "/x.h") = false := by decide
    refine (Collector.collect_of_unit lacking.withoutGlobal.workspace Frontend.leavesFiles_scan
      (by decide) (by decide) hpre).trans ?_
    have hid : lacking.withoutGlobal.workspace.table.id (.ofString "/x.h") = (⟨0⟩, pairTable) :=
      id_pairTable
    simp only [Collector.addHeaders, hproject, Bool.false_eq_true, if_false, hid]
    rfl
  have hparts : lacking.withoutGlobal.collectParts lacking.withoutGlobal.workspace
      lacking.withoutGlobal.parts =
        ([pairFound], ⟨lackingTree, pairTable, DiagnosticSink.empty.emit lackingWarning⟩) := by
    have hfiles : pairPart.headerAndSourcePaths ≠ [] := by decide
    refine (collectParts_of_files hfiles).trans ?_
    rw [hcollect]
    rfl
  simp only [collectGlobal, hparts]
  rfl

/-- The tree with the header file. -/
@[irreducible] def lackingListed : FileTree :=
  (lackingCollected.writeHeader lacking.globalHeaderFile pairText).2.workspace.tree

theorem writesGlobal_lacking :
    lacking.WritesGlobal (lackingCollected.withTree lackingListed) := by
  refine ⟨"#include </x.h>\n", ?_, ?_⟩
  · rw [collectGlobal_lacking]
    exact (headerText_eq resolve_pairFound).trans (by with_unfolding_all decide)
  · rw [collectGlobal_lacking]
    unfold lackingListed
    exact writeHeader_of_isOk (g := lackingCollected) (by decide +kernel)

theorem fails_lacking : ∃ program status stderr, (lackingCollected.withTree lackingListed).Fails
    lacking.globalEmitArguments (.failed program status stderr) := by
  have hemission : Scan.IsEmission [] .root lacking.globalHeaderFile lacking.globalFile none :=
    isOrdinary_lacking.emitting.isEmission isStem_globalStem Settings.isBare_nil
      fun b hb => by cases hb
  have hread : lackingListed.read lacking.globalHeaderFile.normalize = .ok pairText := by
    decide +kernel
  have hrun : Scan.run lackingListed ⟨"clang++", lacking.globalEmitArguments, .root⟩ [] = _ :=
    hemission.run_of_read hread rfl
  have hwithin : Include.walkWithin (Scan.search [] .root) lackingListed 3
      (Scan.visitedBefore lackingListed .root [] [] lacking.globalHeaderFile.normalize)
      (Include.ofFile lacking.globalHeaderFile.normalize pairText) = some
        [.entered (.ofString "/x.h") (Path.ofString "#include \"gone.h\"\n").bytes,
          .unresolved ⟨.ofString "/x.h", .root, ⟨.quoted, "gone.h".toList⟩⟩] := by
    decide +kernel
  rw [Include.walk_of_walkWithin hwithin] at hrun
  obtain ⟨program, status, stderr, hfails⟩ :=
    Scan.compile_eq_failed_iff.2 ⟨_, hrun, List.cons_ne_nil _ _⟩
  exact ⟨program, status, stderr, (fails_iff rfl).2 hfails⟩

end Generator

end PrecompiledHeaders
