import PrecompiledHeaders.Proofs.Generation.PartSnapshots

/-!
# The headers that parts add

What a part adds is found with the headers excluded that all parts include. Files are told apart by
their identities, so none of these headers comes up again, whatever links lead to it: after a pass
the headers of a part are other files than the headers of the precompiled header for all parts
(`Generator.part_headers_are_new`), in any tree.

That precompiled header holds more than its headers, though: a header outside of the project may
include a file of the project, which then is in the snapshot and not among the headers. Another part
that includes this file adds it all the same (`Generator.part_header_is_in_front`). Where paths can
be compared, such files are all that comes up again
(`Generator.repeated_headers_are_project_files`).
-/

namespace PrecompiledHeaders

open FileTree

/-! ### Collecting in any tree -/

namespace Collector

variable {c : Collector} {workspace : Workspace} {p : Path}

/-- What a collector finds are files, and none of those that are excluded. -/
theorem isFile_of_holds_collect (hscan : c.frontend = .scan) (hd : c.directory.isAbsolute = true)
    (hfound : c.found = .empty)
    (h : (c.collect workspace).1.found.Holds (c.collect workspace).2.table p) :
    workspace.tree.isFile p.normalize = true ∧ ∀ e ∈ c.excluded,
      workspace.tree.identity p.normalize ≠
        workspace.tree.identity (c.directory.normalizeFrom e) := by
  obtain ⟨unit, -, found, hpreprocess, hin⟩ := exists_of_holds_collect hscan hd hfound h
  exact Scan.isFile_of_mem_headers hpreprocess hin

end Collector

namespace Generator

variable {g g' : Generator} {part : ProjectPart} {parts : List ProjectPart}
  {includes : IncludeSet} {shared : List Path} {ids : List PathId}

/-- The headers that all parts include are files. -/
theorem isFile_of_holds_collectGlobal (hscan : g.frontend = .scan)
    (hd : g.environment.workingDirectory.isAbsolute = true) {p : Path}
    (h : g.collectGlobal.1.Holds g.collectGlobal.2.workspace.table p) :
    g.workspace.tree.isFile p.normalize = true := by
  obtain ⟨part, -, unit, -, found, hpreprocess, hin⟩ := exists_of_holds_collectGlobal hscan hd h
  exact (Scan.isFile_of_mem_headers hpreprocess hin).1

/-! ### Headers that are excluded -/

/-- Whether a generator scans a tree in which the headers are there that it knows all parts to
    include. -/
structure Excludes (g : Generator) (includes : IncludeSet) (shared : List Path) : Prop where
  frontend : g.frontend = .scan
  directory : g.environment.workingDirectory.isAbsolute = true
  isTree : g.workspace.tree.IsTree
  known : g.globalIncludes = some includes
  isSound : includes.IsSound g.workspace.table
  resolve : g.workspace.table.resolve includes.order = .ok shared
  isNormal : ∀ q ∈ shared, q.IsNormal
  isThere : ∀ q ∈ shared, g.workspace.tree.HasEntry q

/-- Files are written, ids are given, and the rest stays as it is. -/
theorem Excludes.of_grows (h : g.Excludes includes shared) (hfrontend : g'.frontend = g.frontend)
    (henvironment : g'.environment = g.environment)
    (hincludes : g'.globalIncludes = g.globalIncludes)
    (hgrows : Grows g.workspace.tree g'.workspace.tree)
    (hle : g.workspace.table ≤ g'.workspace.table) : g'.Excludes includes shared where
  frontend := hfrontend.trans h.frontend
  directory := henvironment ▸ h.directory
  isTree := hgrows.isTree h.isTree
  known := hincludes.trans h.known
  isSound := h.isSound.mono hle
  resolve := by
    rw [PathTable.resolve_of_le hle fun id hid => (h.isSound.known id hid).imp fun _ hp => hp.2]
    exact h.resolve
  isNormal := h.isNormal
  isThere q hq := hgrows.hasEntry (h.isThere q hq)

/-- Whether the headers with some ids are there, and none of them is one of some others, under
    whatever path. -/
structure IsNewTo (g : Generator) (shared : List Path) (ids : List PathId) : Prop where
  known : ∀ id ∈ ids, ∃ p : Path, g.workspace.table.get? p = some id
  exists_paths : ∃ paths, g.workspace.table.resolve ids = .ok paths ∧ ∀ p ∈ paths,
    g.workspace.tree.HasEntry p ∧
      ∀ q ∈ shared, g.workspace.tree.identity p ≠ g.workspace.tree.identity q

theorem IsNewTo.of_grows (h : g.IsNewTo shared ids)
    (hthere : ∀ q ∈ shared, g.workspace.tree.HasEntry q)
    (hgrows : Grows g.workspace.tree g'.workspace.tree)
    (hle : g.workspace.table ≤ g'.workspace.table) : g'.IsNewTo shared ids := by
  obtain ⟨paths, hresolve, hnew⟩ := h.exists_paths
  refine ⟨fun id hid => (h.known id hid).imp fun p hp => hle p id hp, paths, ?_, fun p hp => ?_⟩
  · rw [PathTable.resolve_of_le hle h.known, hresolve]
  · obtain ⟨hp', hne⟩ := hnew p hp
    refine ⟨hgrows.hasEntry hp', fun q hq => ?_⟩
    rw [hgrows.identity hp', hgrows.identity (hthere q hq)]
    exact hne q hq

/-- What a part adds is new to the headers that all parts include. -/
theorem Excludes.collectPart (h : g.Excludes includes shared) {found : IncludeSet}
    (hcollect : g.collectPart part = (.ok found, g')) :
    g'.Excludes includes shared ∧ g'.IsNewTo shared found.order ∧
      g'.workspace.tree = g.workspace.tree ∧ g.workspace.table ≤ g'.workspace.table := by
  have hlists := listsAbsolute_of_scan h.frontend h.directory
  have hfound : g.collectPart part = _ := collectPart_of_known h.known h.resolve
  cases hfound.symm.trans hcollect
  have hleaves : g.frontend.LeavesFiles := h.frontend ▸ Frontend.leavesFiles_scan
  have htree : ((g.addingCollector part shared).collect g.workspace).2.tree = g.workspace.tree :=
    Collector.tree_collect hleaves g.workspace
  have htakes := (Collector.collect_takes (c := g.addingCollector part shared) hlists.frontend
    hlists.directory g.workspace).2
  obtain ⟨paths, hresolve, hnormal, hholds⟩ := (htakes.sound (.empty _)).exists_resolve
  refine ⟨h.of_grows rfl rfl rfl (htree ▸ .refl _) htakes.le,
    ⟨fun id hid => ((htakes.sound (.empty _)).known id hid).imp fun _ hp => hp.2, paths, hresolve,
      fun p hp => ?_⟩, htree, htakes.le⟩
  obtain ⟨hfile, hne⟩ := Collector.isFile_of_holds_collect h.frontend h.directory rfl
    ((hholds p (hnormal p hp)).1 hp)
  rw [(hnormal p hp).normalize_eq] at hfile hne
  rw [htree]
  refine ⟨hasEntry_of_isFile hfile, fun q hq => ?_⟩
  -- A normal path stays as it is when it is taken from a directory, once or twice.
  have hexcluded : q ∈ (g.addingCollector part shared).excluded := by
    refine List.mem_map.2 ⟨q, hq, ?_⟩
    exact (h.isNormal q hq).normalizeFrom_eq _
  have hne := hne q hexcluded
  rwa [(h.isNormal q hq).normalizeFrom_eq] at hne

theorem Excludes.makePart (h : g.Excludes includes shared) {made : Artifact × PartIncludes}
    (hmade : g.makePart part = (.ok made, g')) :
    g'.Excludes includes shared ∧ made.1.scope = .part part.id ∧
      g'.IsNewTo shared made.1.includes ∧ Grows g.workspace.tree g'.workspace.tree ∧
      g.workspace.table ≤ g'.workspace.table := by
  obtain ⟨found, collected, text, written, compiled, hcollect, -, hwrite, hemit, rfl, rfl⟩ :=
    makePart_eq_ok hmade
  obtain ⟨hcollected, hnew, htree, hle⟩ := h.collectPart hcollect
  obtain ⟨tree, rfl, hgrows⟩ := writeHeader_grows hcollected.isTree hwrite
  obtain ⟨tree', rfl, hgrows', -⟩ := emit_grows (g := collected.withTree tree)
    (hgrows.isTree hcollected.isTree) hcollected.frontend hemit
  have hgrows'' : Grows collected.workspace.tree tree' := hgrows.trans hgrows'
  exact ⟨hcollected.of_grows rfl rfl rfl hgrows'' (PathTable.le_refl _), rfl,
    hnew.of_grows hcollected.isThere hgrows'' (PathTable.le_refl _), htree ▸ hgrows'', hle⟩

theorem Excludes.makeParts (h : g.Excludes includes shared)
    {made : List (Artifact × PartIncludes)} (hmade : g.makeParts parts = (.ok made, g')) :
    g'.Excludes includes shared ∧
      List.Forall₂ (fun part made => made.1.scope = .part part.id ∧
        g'.IsNewTo shared made.1.includes) parts made ∧
      Grows g.workspace.tree g'.workspace.tree ∧ g.workspace.table ≤ g'.workspace.table := by
  induction parts generalizing g made with
  | nil =>
    cases hmade
    exact ⟨h, .nil, .refl _, PathTable.le_refl _⟩
  | cons part rest ih =>
    obtain ⟨first, after, others, hfirst, hrest, rfl⟩ := makeParts_cons_eq_ok hmade
    obtain ⟨hafter, hscope, hnew, hgrows, hle⟩ := h.makePart hfirst
    obtain ⟨hend, hothers, hgrows', hle'⟩ := ih hafter hrest
    exact ⟨hend, .cons ⟨hscope, hnew.of_grows hafter.isThere hgrows' hle'⟩ hothers,
      hgrows.trans hgrows', PathTable.le_trans hle hle'⟩

/-- The headers that all parts include, when they have just been found. -/
theorem exists_excludes_collectGlobal (hscan : g.frontend = .scan)
    (hd : g.environment.workingDirectory.isAbsolute = true) (htree : g.workspace.tree.IsTree) :
    ∃ shared, g.collectGlobal.2.Excludes g.collectGlobal.1 shared ∧
      g.collectGlobal.2.workspace.tree = g.workspace.tree := by
  have hleaves : g.frontend.LeavesFiles := hscan ▸ Frontend.leavesFiles_scan
  have hkept : g.collectGlobal.2.workspace.tree = g.workspace.tree :=
    tree_collectParts_of_leavesFiles hleaves _ _
  have hsound := collectGlobal_isSound (listsAbsolute_of_scan hscan hd)
  obtain ⟨shared, hresolve, hnormal, hholds⟩ := hsound.exists_resolve
  refine ⟨shared, ⟨hscan, hd, hkept ▸ htree, rfl, hsound, hresolve, hnormal, fun q hq => ?_⟩, hkept⟩
  have hfile := isFile_of_holds_collectGlobal hscan hd ((hholds q (hnormal q hq)).1 hq)
  rw [(hnormal q hq).normalize_eq] at hfile
  rw [hkept]
  exact hasEntry_of_isFile hfile

/-- The headers of the precompiled header for all parts, when it has been made. -/
theorem exists_excludes (hscan : g.frontend = .scan)
    (hd : g.environment.workingDirectory.isAbsolute = true) (htree : g.workspace.tree.IsTree)
    {artifact : Artifact} (h : g.makeGlobal = (.ok artifact, g')) : ∃ includes shared,
      g'.Excludes includes shared ∧ artifact.includes = includes.order ∧
        g'.globalArtifact = some artifact := by
  obtain ⟨text, written, compiled, -, hwrite, hemit, rfl, rfl⟩ := makeGlobal_eq_ok h
  obtain ⟨shared, hcollected, -⟩ :=
    exists_excludes_collectGlobal (g := g.withoutGlobal) hscan hd htree
  obtain ⟨tree, rfl, hgrows⟩ := writeHeader_grows hcollected.isTree hwrite
  obtain ⟨tree', rfl, hgrows', -⟩ := emit_grows (g := g.withoutGlobal.collectGlobal.2.withTree tree)
    (hgrows.isTree hcollected.isTree) hscan hemit
  exact ⟨_, shared, hcollected.of_grows rfl rfl rfl (hgrows.trans hgrows') (PathTable.le_refl _),
    rfl, rfl⟩

/-! ### Two parts that cross -/

/-- The part that includes a header of the other one. -/
def userPart : ProjectPart := ⟨"user", [], [], [.ofString "/a.cpp"]⟩

/-- The part with a header. -/
def ownerPart : ProjectPart := ⟨"owner", [], [.ofString "/b.h"], []⟩

/-- A directive that includes a header beside the file. It is spelled in characters, which are
    evaluated faster than a string. -/
def directiveText (name : List Char) : Bytes :=
  Utf8.encode (['#', 'i', 'n', 'c', 'l', 'u', 'd', 'e', '"'] ++ name ++ ['.', 'h', '"'])

/-- A text that includes the header of a part. -/
def ownerIncluded : Bytes := directiveText ['b']

/-- A text that includes a header outside of the parts. -/
def outsideIncluded : Bytes := directiveText ['x']

/-- The source of a part, the header of the other one, and a header outside of them. The two headers
    include each other, and the source comes to the one outside through the other one. -/
def crossedTree : FileTree where
  entries := [
    ([(Path.ofString "a.cpp").bytes], .file ownerIncluded),
    ([(Path.ofString "b.h").bytes], .file outsideIncluded),
    ([(Path.ofString "x.h").bytes], .file ownerIncluded)]
  here := []

/-- A generator for the two parts. -/
def crossed : Generator := { (pairIn 0).withTree crossedTree with parts := [userPart, ownerPart] }

theorem isSound_crossedTree : crossedTree.IsSound :=
  isSound_of_entries (by simp [crossedTree, entryAt])

theorem isTree_crossedTree : crossedTree.IsTree := ⟨isSound_crossedTree.above, rfl⟩

theorem isEmitting_crossed : crossed.IsEmitting :=
  have hemitting := (isRegular_pairIn 0).emitting
  ⟨⟨rfl, rfl, isSound_crossedTree.isPlain⟩, isSound_crossedTree, hemitting.isAbsolute,
    hemitting.isText⟩

theorem isNormal_header_crossed : (Path.ofString "/b.h").IsNormal := ⟨by decide, by decide⟩

/-! #### The precompiled header for all parts -/

/-- What both parts include. -/
def crossedShared : IncludeSet := pairFound.intersect pairFound

/-- The walks from the source and from the header of the other part. -/
theorem walks_crossedTree :
    Scan.preprocessWithin 4 crossedTree [] .root [] (.ofString "/a.cpp") =
      some ⟨[.ofString "/b.h", .ofString "/x.h"], []⟩ ∧
    Scan.preprocessWithin 4 crossedTree [] .root [] (.ofString "/b.h") =
      some ⟨[.ofString "/x.h"], []⟩ := by
  with_unfolding_all decide

theorem collect_user : (crossed.globalCollector userPart).collect crossed.workspace =
    ({ crossed.globalCollector userPart with found := pairFound },
      ⟨crossedTree, pairTable, .empty⟩) := by
  have hpre : Scan.preprocess crossedTree
      ⟨"clang++", Task.arguments [] (.preprocess (.ofString "/a.cpp")), .root⟩ [] =
        .ok ⟨[.ofString "/b.h", .ofString "/x.h"], []⟩ :=
    Scan.preprocess_of_preprocessWithin Settings.isOpenEnded_nil isNormal_source_pair
      (Path.isText_ofString _) walks_crossedTree.1
  have houtside : (crossed.globalCollector userPart).isProjectFile (.ofString "/x.h") = false := by
    decide
  have howned : (crossed.globalCollector userPart).isProjectFile (.ofString "/b.h") = true := by
    decide
  have hid : crossed.workspace.table.id (.ofString "/x.h") = (⟨0⟩, pairTable) := id_pairTable
  refine (Collector.collect_of_unit crossed.workspace Frontend.leavesFiles_scan
    (by decide) (by decide) hpre).trans ?_
  simp only [Collector.addHeaders, houtside, Bool.false_eq_true, if_false, hid, howned, if_true]
  rfl

theorem collect_owner :
    (crossed.globalCollector ownerPart).collect ⟨crossedTree, pairTable, .empty⟩ =
      ({ crossed.globalCollector ownerPart with found := pairFound },
        ⟨crossedTree, pairTable, .empty⟩) := by
  have hpre : Scan.preprocess crossedTree
      ⟨"clang++", Task.arguments [] (.preprocess (.ofString "/b.h")), .root⟩ [] =
        .ok ⟨[.ofString "/x.h"], []⟩ :=
    Scan.preprocess_of_preprocessWithin Settings.isOpenEnded_nil isNormal_header_crossed
      (Path.isText_ofString _) walks_crossedTree.2
  have houtside : (crossed.globalCollector ownerPart).isProjectFile (.ofString "/x.h") = false := by
    decide
  have hid : pairTable.id (.ofString "/x.h") = (⟨0⟩, pairTable) :=
    PathTable.id_of_seen (by decide +kernel)
  refine (Collector.collect_of_unit ⟨crossedTree, pairTable, .empty⟩
    Frontend.leavesFiles_scan (by decide) (by decide) hpre).trans ?_
  simp only [Collector.addHeaders, houtside, Bool.false_eq_true, if_false, hid]
  rfl

theorem order_crossedShared : crossedShared.order = [⟨0⟩] := by
  have horder : pairFound.order = [⟨0⟩] := by
    simp [pairFound, IncludeSet.insert, IncludeSet.contains, IncludeSet.empty]
  have hcoherent : pairFound.IsCoherent := .insert .empty _
  have hfilter : pairFound.order.filter pairFound.contains = [⟨0⟩] := by
    rw [horder, List.filter_cons_of_pos, List.filter_nil]
    exact (hcoherent.contains_iff _).2 (by rw [horder]; simp)
  rw [crossedShared, IncludeSet.intersect, hfilter]
  exact horder

theorem resolve_crossedShared :
    pairTable.resolve crossedShared.order = .ok [.ofString "/x.h"] := by
  rw [order_crossedShared]
  rfl

/-- The generator when it knows what both parts include. -/
def crossedCollected : Generator :=
  { crossed.withoutGlobal with
    workspace := ⟨crossedTree, pairTable, .empty⟩
    globalIncludes := some crossedShared
    stage := .includesKnown }

theorem collectGlobal_crossed :
    crossed.withoutGlobal.collectGlobal = (crossedShared, crossedCollected) := by
  have huser : (crossed.withoutGlobal.globalCollector userPart).collect
      crossed.withoutGlobal.workspace = _ := collect_user
  have howner : (crossed.withoutGlobal.globalCollector ownerPart).collect
      ⟨crossedTree, pairTable, .empty⟩ = _ := collect_owner
  have hparts : crossed.withoutGlobal.collectParts crossed.withoutGlobal.workspace
      [userPart, ownerPart] =
        ([pairFound, pairFound], ⟨crossedTree, pairTable, .empty⟩) := by
    rw [collectParts_of_files (by decide), huser, collectParts_of_files (by decide), howner]
    rfl
  have hparts' : crossed.withoutGlobal.collectParts crossed.withoutGlobal.workspace
      crossed.withoutGlobal.parts = _ := hparts
  simp only [collectGlobal, hparts']
  rfl

/-- What the precompiled header for both parts holds: the header outside of them, and the header of
    one of them that it includes. -/
def crossedSnapshot : Snapshot :=
  ⟨[⟨.ofString "/x.h", .ofBytes ownerIncluded⟩, ⟨.ofString "/b.h", .ofBytes outsideIncluded⟩]⟩

/-- The precompiled header for both parts. -/
def crossedBytes : Bytes := crossedSnapshot.encode?.getD []

theorem encode?_crossedSnapshot : crossedSnapshot.encode? = some crossedBytes := by
  obtain ⟨bytes, hbytes⟩ := Option.isSome_iff_exists.1
    (by decide +kernel : crossedSnapshot.encode?.isSome = true)
  rw [crossedBytes, hbytes]
  rfl

/-- Where a file is generated. -/
def outputLocation (stem : List Char) (ending : String) : Location :=
  fileName stem ending :: locationOf ["out"]

/-- The tree with the output directory. -/
def crossedPrepared : FileTree := crossedTree.set (locationOf ["out"]) .directory

/-- The text of the header file for both parts. -/
def sharedText : Bytes := Utf8.encode "#include </x.h>\n".toList

/-- The tree with the header file for both parts. -/
def crossedListed : FileTree :=
  crossedPrepared.set (outputLocation globalStem ".h") (.file sharedText)

/-- The tree with the precompiled header for both parts. -/
def crossedEmitted : FileTree :=
  crossedListed.set (outputLocation globalStem ".pch") (.file crossedBytes)

theorem walk_crossedListed : Include.walkWithin (Scan.search [] .root) crossedListed 4
    (Scan.visitedBefore crossedListed .root [] [] (outputLocation globalStem ".h").path)
    (Include.ofFile (outputLocation globalStem ".h").path sharedText) =
      some [.entered (.ofString "/x.h") ownerIncluded,
        .entered (.ofString "/b.h") outsideIncluded] := by
  decide +kernel

theorem compile_crossed : Scan.compile crossedListed
    ⟨"clang++", crossed.globalEmitArguments, .root⟩ = (.ok (), crossedEmitted) := by
  have hemission : Scan.IsEmission [] .root crossed.globalHeaderFile crossed.globalFile none :=
    isEmitting_crossed.isEmission isStem_globalStem Settings.isBare_nil fun b hb => by cases hb
  have hheader : crossed.globalHeaderFile.normalize = (outputLocation globalStem ".h").path :=
    normalize_headerFile_pairIn 0 isStem_globalStem
  have htarget : crossed.globalFile.normalize = (outputLocation globalStem ".pch").path :=
    normalize_precompiledFile_pairIn 0 isStem_globalStem
  have hsource : crossedListed.read crossed.globalHeaderFile.normalize = .ok sharedText := by
    rw [hheader]
    decide
  have hwalk := Include.walk_of_walkWithin walk_crossedListed
  rw [← hheader] at hwalk
  refine hemission.compile_of_walk hsource rfl hwalk rfl (fun _ => rfl) encode?_crossedSnapshot ?_
  rw [htarget]
  with_unfolding_all rfl

/-- The generator when it has made the precompiled header for both parts. -/
def crossedStarted : Generator :=
  { crossed.withWorkspace ⟨crossedEmitted, pairTable, .empty⟩ with
    globalIncludes := some crossedShared
    globalArtifact := some (crossed.globalProduct crossedShared)
    emitted := true
    stage := .globalEmitted }

theorem makeGlobal_crossed :
    crossed.makeGlobal = (.ok (crossed.globalProduct crossedShared), crossedStarted) := by
  have htext : headerText crossed.withoutGlobal.collectGlobal.2.workspace.table
      crossed.withoutGlobal.collectGlobal.1.order = .ok "#include </x.h>\n" := by
    rw [collectGlobal_crossed]
    exact (headerText_eq resolve_crossedShared).trans (by with_unfolding_all decide)
  have hmade : crossedTree.makeDirectories (.ofString "/out") = (.ok (), crossedPrepared) := by
    with_unfolding_all rfl
  have hplain : crossedPrepared.IsPlain :=
    isPlain_of_entries (by simp [crossedPrepared, FileTree.set, crossedTree])
  have hname : (fileName globalStem ".h").length = 12 := by decide
  have hwrite : crossed.withoutGlobal.collectGlobal.2.writeHeader crossed.globalHeaderFile
      sharedText = (.ok (), crossedCollected.withTree crossedListed) := by
    rw [collectGlobal_crossed]
    exact writeHeader_pairIn isStem_globalStem (by rw [hname]; decide) (by rw [hname]; decide)
      hmade hplain (by decide) (by decide)
  refine (makeGlobal_of_emit htext hwrite (emit_of_compile rfl compile_crossed)).trans ?_
  rw [collectGlobal_crossed]
  rfl

/-! #### The precompiled headers of the parts -/

/-- What the files for the first part are called. -/
def userStem : List Char :=
  ['u', 's', 'e', 'r', '-', '3', 'b', '1', 'c', '2', 'b', 'b', '3', '7', 'a', '8', 'a', 'e', 'c',
    '7', '8']

/-- What the files for the other part are called. -/
def ownerStem : List Char :=
  ['o', 'w', 'n', 'e', 'r', '-', '8', '7', '8', 'c', 'b', 'a', '3', 'b', '8', 'c', '6', 'e', '0',
    '3', '8', '1']

theorem partStem_crossed : partStem userPart.id = userStem ∧ partStem ownerPart.id = ownerStem := by
  decide +kernel

/-- A part is compiled on top of the precompiled header for both parts, and adds no entry. -/
theorem compile_crossed_part {tree tree' : FileTree} {part : ProjectPart} {stem : List Char}
    {text : Bytes} (hstem : partStem part.id = stem)
    (hread : tree.read (outputLocation stem ".h").path = .ok text)
    (hfind : tree.find? (outputLocation globalStem ".pch").path = some (.file crossedBytes))
    (hwithin : Include.walkWithin (Scan.search [] .root) tree 2
      (Scan.visitedBefore tree .root [] crossedSnapshot.entries (outputLocation stem ".h").path)
      (Include.ofFile (outputLocation stem ".h").path text) = some [])
    (hwrite : tree.write (outputLocation stem ".pch").path crossedBytes = .ok tree') :
    Scan.compile tree ⟨"clang++", Task.arguments [] (.emit (crossed.partHeaderFile part)
      (crossed.partFile part) (some crossed.globalFile)), .root⟩ = (.ok (), tree') := by
  subst hstem
  have hheader : (crossed.partHeaderFile part).normalize = _ :=
    normalize_headerFile_pairIn 0 (isStem_partStem part.id)
  have htarget : (crossed.partFile part).normalize = _ :=
    normalize_precompiledFile_pairIn 0 (isStem_partStem part.id)
  have hemission : Scan.IsEmission [] .root (crossed.partHeaderFile part) (crossed.partFile part)
      (some crossed.globalFile) :=
    isEmitting_crossed.isEmission (isStem_partStem part.id) Settings.isBare_nil fun b hb => by
      cases hb
      exact ⟨isAbsolute_globalFile isEmitting_crossed, isText_globalFile isEmitting_crossed⟩
  have hfront : crossed.globalFile.normalize = (outputLocation globalStem ".pch").path :=
    normalize_precompiledFile_pairIn 0 isStem_globalStem
  have hbase : Scan.baseEntries tree [crossed.globalFile.normalize] =
      .ok crossedSnapshot.entries := by
    rw [hfront, Scan.baseEntries, Snapshot.read_of_find? hfind encode?_crossedSnapshot]
    rfl
  have hwalk := Include.walk_of_walkWithin hwithin
  rw [outputLocation, ← hheader] at hread hwalk
  rw [outputLocation, ← htarget] at hwrite
  exact hemission.compile_of_walk hread hbase hwalk rfl (fun _ => rfl) encode?_crossedSnapshot
    hwrite

/-- The table with all headers. -/
def crossedTable : PathTable := ⟨#["/x.h".toList, "/b.h".toList]⟩

theorem resolve_crossedTable :
    crossedTable.resolve crossedShared.order = .ok [.ofString "/x.h"] := by
  rw [order_crossedShared]
  rfl

/-- What the first part adds: the header of the other one. -/
def userAdded : IncludeSet := IncludeSet.empty.insert ⟨1⟩

theorem resolve_userAdded : crossedTable.resolve userAdded.order = .ok [.ofString "/b.h"] := by
  have horder : userAdded.order = [⟨1⟩] := by
    simp [userAdded, IncludeSet.insert, IncludeSet.contains, IncludeSet.empty]
  rw [horder]
  rfl

/-- The generator when it knows what the first part adds. -/
def userCollected : Generator :=
  { crossedStarted with
    workspace := ⟨crossedEmitted, crossedTable, .empty⟩
    stage := .partIncludesKnown "user" }

/-- The text of the header file of the first part. -/
def userText : Bytes := Utf8.encode "#include </b.h>\n".toList

/-- The tree with the header file of the first part. -/
def userListed : FileTree :=
  crossedEmitted.set (outputLocation userStem ".h") (.file userText)

/-- The tree with the precompiled header of the first part. -/
def userEmitted : FileTree :=
  userListed.set (outputLocation userStem ".pch") (.file crossedBytes)

theorem walks_user :
    Scan.preprocessWithin 4 crossedEmitted [] .root [.ofString "/x.h"] (.ofString "/a.cpp") =
      some ⟨[.ofString "/b.h"], []⟩ ∧
    Include.walkWithin (Scan.search [] .root) userListed 2
      (Scan.visitedBefore userListed .root [] crossedSnapshot.entries
        (outputLocation userStem ".h").path)
      (Include.ofFile (outputLocation userStem ".h").path userText) = some [] := by
  decide +kernel

theorem collectPart_user :
    crossedStarted.collectPart userPart = (.ok userAdded, userCollected) := by
  have hpre : Scan.preprocess crossedEmitted
      ⟨"clang++", Task.arguments [] (.preprocess (.ofString "/a.cpp")), .root⟩
      [.ofString "/x.h"] = .ok ⟨[.ofString "/b.h"], []⟩ :=
    Scan.preprocess_of_preprocessWithin Settings.isOpenEnded_nil isNormal_source_pair
      (Path.isText_ofString _) walks_user.1
  have howned : (crossedStarted.knownGlobal.2.addingCollector userPart
      [.ofString "/x.h"]).isProjectFile (.ofString "/b.h") = false := by decide
  have hid : crossedStarted.workspace.table.id (.ofString "/b.h") = (⟨1⟩, crossedTable) := by
    have hnormal : (Path.ofString "/b.h").normalize = .ofString "/b.h" := by decide
    rw [PathTable.id_of_new (by decide +kernel), hnormal, Path.key_ofString (by decide)]
    rfl
  have hcollect : (crossedStarted.knownGlobal.2.addingCollector userPart
      [.ofString "/x.h"]).collect crossedStarted.knownGlobal.2.workspace =
        ({ crossedStarted.addingCollector userPart [.ofString "/x.h"] with found := userAdded },
          ⟨crossedEmitted, crossedTable, .empty⟩) := by
    refine (Collector.collect_of_unit crossedStarted.workspace Frontend.leavesFiles_scan
      (by decide) (by decide) hpre).trans ?_
    simp only [Collector.addHeaders, howned, Bool.false_eq_true, if_false, hid]
    rfl
  have hpart : crossedStarted.collectPart userPart = _ :=
    collectPart_of_resolve resolve_crossedShared
  rw [hpart, hcollect]
  rfl

theorem compile_user : Scan.compile userListed
    ⟨"clang++", crossedStarted.partEmitArguments userPart, .root⟩ = (.ok (), userEmitted) :=
  compile_crossed_part partStem_crossed.1 (by decide) rfl walks_user.2 (by with_unfolding_all rfl)

/-- The generator when it has made the precompiled header of the first part. -/
def userMade : Generator :=
  { crossedStarted with
    workspace := ⟨userEmitted, crossedTable, .empty⟩
    stage := .partEmitted "user" }

theorem makePart_user : crossedStarted.makePart userPart =
    (.ok (crossedStarted.partProduct userPart userAdded), userMade) := by
  have htext : headerText userCollected.workspace.table userAdded.order = .ok "#include </b.h>\n" :=
    (headerText_eq resolve_userAdded).trans (by with_unfolding_all decide)
  have hmade : crossedEmitted.makeDirectories (.ofString "/out") = (.ok (), crossedEmitted) := by
    with_unfolding_all rfl
  have hplain : crossedEmitted.IsPlain :=
    isPlain_of_entries (by simp [crossedEmitted, crossedListed, crossedPrepared, FileTree.set,
      crossedTree])
  have hname : (fileName (partStem userPart.id) ".h").length = 23 := by
    rw [partStem_crossed.1]
    decide
  have hwrite : userCollected.writeHeader (crossed.partHeaderFile userPart) userText = _ :=
    writeHeader_pairIn (isStem_partStem userPart.id) (by rw [hname]; decide)
      (by rw [hname]; decide) hmade hplain (by decide) (by rw [partStem_crossed.1]; decide)
  rw [partStem_crossed.1] at hwrite
  exact (makePart_of_emit rfl collectPart_user htext hwrite
    (emit_of_compile rfl compile_user)).trans rfl

/-- The generator when it knows that the other part adds nothing. -/
def ownerCollected : Generator := { userMade with stage := .partIncludesKnown "owner" }

/-- The tree with the header file of the other part, which lists nothing. -/
def ownerListed : FileTree :=
  userEmitted.set (outputLocation ownerStem ".h") (.file [])

/-- The tree with the precompiled header of the other part. -/
def ownerEmitted : FileTree :=
  ownerListed.set (outputLocation ownerStem ".pch") (.file crossedBytes)

theorem walks_owner :
    Scan.preprocessWithin 4 userEmitted [] .root [.ofString "/x.h"] (.ofString "/b.h") =
      some ⟨[], []⟩ ∧
    Include.walkWithin (Scan.search [] .root) ownerListed 2
      (Scan.visitedBefore ownerListed .root [] crossedSnapshot.entries
        (outputLocation ownerStem ".h").path)
      (Include.ofFile (outputLocation ownerStem ".h").path []) = some [] := by
  decide +kernel

theorem collectPart_owner : userMade.collectPart ownerPart = (.ok .empty, ownerCollected) := by
  have hpre : Scan.preprocess userEmitted
      ⟨"clang++", Task.arguments [] (.preprocess (.ofString "/b.h")), .root⟩ [.ofString "/x.h"] =
        .ok ⟨[], []⟩ :=
    Scan.preprocess_of_preprocessWithin Settings.isOpenEnded_nil isNormal_header_crossed
      (Path.isText_ofString _) walks_owner.1
  have hcollect : (userMade.knownGlobal.2.addingCollector ownerPart
      [.ofString "/x.h"]).collect userMade.knownGlobal.2.workspace =
        (userMade.addingCollector ownerPart [.ofString "/x.h"], userMade.workspace) :=
    (Collector.collect_of_unit userMade.workspace Frontend.leavesFiles_scan
      (by decide) (by decide) hpre).trans rfl
  have hpart : userMade.collectPart ownerPart = _ := collectPart_of_resolve resolve_crossedTable
  rw [hpart, hcollect]
  rfl

theorem compile_owner : Scan.compile ownerListed
    ⟨"clang++", userMade.partEmitArguments ownerPart, .root⟩ = (.ok (), ownerEmitted) :=
  compile_crossed_part partStem_crossed.2 (by decide) rfl walks_owner.2 (by with_unfolding_all rfl)

/-- The generator when it has made the precompiled header of the other part. -/
def ownerMade : Generator :=
  { userMade with
    workspace := ⟨ownerEmitted, crossedTable, .empty⟩
    stage := .partEmitted "owner" }

theorem makePart_owner : userMade.makePart ownerPart =
    (.ok (userMade.partProduct ownerPart .empty), ownerMade) := by
  have hmade : userEmitted.makeDirectories (.ofString "/out") = (.ok (), userEmitted) := by
    with_unfolding_all rfl
  have hplain : userEmitted.IsPlain :=
    isPlain_of_entries (by simp [userEmitted, userListed, crossedEmitted, crossedListed,
      crossedPrepared, FileTree.set, crossedTree])
  have hname : (fileName (partStem ownerPart.id) ".h").length = 24 := by
    rw [partStem_crossed.2]
    decide
  have hwrite : ownerCollected.writeHeader (crossed.partHeaderFile ownerPart) [] = _ :=
    writeHeader_pairIn (isStem_partStem ownerPart.id) (by rw [hname]; decide)
      (by rw [hname]; decide) hmade hplain (by decide) (by rw [partStem_crossed.2]; decide)
  rw [partStem_crossed.2] at hwrite
  exact (makePart_of_emit rfl collectPart_owner (headerText_eq rfl) hwrite
    (emit_of_compile rfl compile_owner)).trans rfl

/-- The generator after the pass. -/
def crossedDone : Generator :=
  { ownerMade with
    partArtifacts := [(crossedStarted.partProduct userPart userAdded).1,
      (userMade.partProduct ownerPart .empty).1]
    partIncludes := [(crossedStarted.partProduct userPart userAdded).2,
      (userMade.partProduct ownerPart .empty).2]
    stage := .done }

theorem generate_crossed : crossed.generate = (.ok (), crossedDone) := by
  have hglobal : crossed.withoutProducts.makeGlobal = (.ok _, crossedStarted) := makeGlobal_crossed
  have hparts : crossedStarted.makeParts [userPart, ownerPart] =
      (.ok [crossedStarted.partProduct userPart userAdded, userMade.partProduct ownerPart .empty],
        ownerMade) := by
    simp only [makeParts, makePart_user, makePart_owner]
  exact (generate_of_makeParts hglobal hparts).trans rfl

/-! ### A whole pass -/

/-- After a pass, the headers that a part adds are other files than the headers that all parts
    include. So they are in the snapshot of the precompiled header for all parts only if that holds
    more than its headers. -/
theorem part_headers_are_new (hscan : g.frontend = .scan)
    (hd : g.environment.workingDirectory.isAbsolute = true) (htree : g.workspace.tree.IsTree)
    (h : g.generate = (.ok (), g')) :
    ∃ global shared, g'.globalArtifact = some global ∧
      g'.workspace.table.resolve global.includes = .ok shared ∧
      List.Forall₂ (fun part artifact => artifact.scope = .part part.id ∧ ∃ paths,
        g'.workspace.table.resolve artifact.includes = .ok paths ∧
        (∀ p ∈ paths, ∀ q ∈ shared,
          g'.workspace.tree.identity p ≠ g'.workspace.tree.identity q) ∧
        ∀ snapshot, Snapshot.read g'.workspace.tree global.path = .ok snapshot →
          ∀ e ∈ snapshot.entries, (∃ q ∈ shared,
            g'.workspace.tree.identity e.path = g'.workspace.tree.identity q) →
          ∀ p ∈ paths, g'.workspace.tree.identity p ≠ g'.workspace.tree.identity e.path)
        g.parts g'.partArtifacts := by
  rcases g.generate_cases with ⟨e, failed, hfailed, -⟩ |
    ⟨global, started, made, finished, hglobal, hmade, hdone⟩
  · cases hfailed.symm.trans h
  cases hdone.symm.trans h
  obtain ⟨includes, shared, hexcludes, hincludes, hartifact⟩ :=
    exists_excludes (g := g.withoutProducts) hscan hd htree hglobal
  obtain ⟨hend, hnew, -, hle⟩ := hexcludes.makeParts hmade
  have hkept := ((Acts.makeParts started g.parts).behind hmade).proceeds
  refine ⟨global, shared, ?_, ?_, ?_⟩
  · obtain ⟨_, _, _, rfl⟩ := hkept
    exact hartifact
  · rw [hincludes]
    exact hend.resolve
  · refine List.forall₂_map_right_iff.2 (hnew.imp fun part made hpart => ?_)
    obtain ⟨hscope, hids⟩ := hpart
    obtain ⟨paths, hresolve, hpaths⟩ := hids.exists_paths
    refine ⟨hscope, paths, hresolve, fun p hp => (hpaths p hp).2, ?_⟩
    rintro snapshot - e - ⟨q, hq, heq⟩ p hp
    rw [heq]
    exact (hpaths p hp).2 q hq

theorem part_headers_are_new_crossed : crossed.generate = (.ok (), crossedDone) ∧
    crossedDone.workspace.tree.identity (.ofString "/b.h") ≠
      crossedDone.workspace.tree.identity (.ofString "/x.h") := by
  obtain ⟨global, shared, hglobal, hshared, hparts⟩ :=
    part_headers_are_new rfl rfl isTree_crossedTree generate_crossed
  cases hglobal
  cases resolve_crossedTable.symm.trans hshared
  obtain ⟨-, paths, hpaths, hne, -⟩ := (List.forall₂_cons.1 hparts).1
  cases resolve_userAdded.symm.trans hpaths
  exact ⟨generate_crossed, hne _ List.mem_cons_self _ List.mem_cons_self⟩

/-- The header of the other part is in the precompiled header for both parts, and the first part
    adds it all the same. -/
theorem part_header_is_in_front : ∃ g' global snapshot artifact paths,
    crossed.generate = (.ok (), g') ∧ g'.globalArtifact = some global ∧
    Snapshot.read g'.workspace.tree global.path = .ok snapshot ∧ artifact ∈ g'.partArtifacts ∧
    g'.workspace.table.resolve artifact.includes = .ok paths ∧
    ∃ p ∈ paths, ∃ e ∈ snapshot.entries,
      g'.workspace.tree.identity p = g'.workspace.tree.identity e.path := by
  have hfind : ownerEmitted.find? crossed.globalFile = some (.file crossedBytes) := by
    with_unfolding_all rfl
  refine ⟨crossedDone, crossed.globalProduct crossedShared, crossedSnapshot,
    (crossedStarted.partProduct userPart userAdded).1, [.ofString "/b.h"], generate_crossed, rfl,
    Snapshot.read_of_find? hfind encode?_crossedSnapshot, List.mem_cons_self, resolve_userAdded,
    .ofString "/b.h", List.mem_singleton_self _, ⟨.ofString "/b.h", .ofBytes outsideIncluded⟩,
    List.mem_cons_of_mem _ List.mem_cons_self, rfl⟩

/-! ### Headers that come up again -/

/-- If a header that a part adds is in the snapshot of the precompiled header for all parts, it is a
    file of the project. -/
theorem repeated_headers_are_project_files (hg : g.IsRegular) (htree : g.workspace.tree.IsTree)
    (hstems : g.parts.Pairwise fun part other => partStem part.id ≠ partStem other.id)
    (hspares : ∀ part ∈ g.parts, g.SparesOutput g.arguments part)
    (hspares' : ∀ tree, Evolves g.IsGenerated g.workspace.tree tree →
      ∀ part ∈ g.parts, (g.withTree tree).SparesOutput part.arguments part)
    (h : g.generate = (.ok (), g')) :
    ∃ snapshot : Snapshot, snapshot.StandsAt g'.workspace.tree g.globalFile ∧
      List.Forall₂ (fun _ artifact => ∃ paths,
        g'.workspace.table.resolve artifact.includes = .ok paths ∧ ∀ p ∈ paths, p ∈ snapshot.paths →
          ∃ other ∈ g.parts, ∃ file ∈ other.files, file.normalize = p)
        g.parts g'.partArtifacts := by
  rcases g.generate_cases with ⟨e, failed, hfailed, -⟩ |
    ⟨global, started, made, finished, hglobal, hmade, hdone⟩
  · cases hfailed.symm.trans h
  cases hdone.symm.trans h
  obtain ⟨entries, hb, hnormal, -⟩ := exists_buildsOn hg.withoutProducts hspares hglobal
  obtain ⟨hb', -⟩ := hb.makeParts hg.withoutProducts hnormal (fun _ => id) hstems hspares' hmade
  obtain ⟨includes, shared, hexcludes, -, -⟩ :=
    exists_excludes (g := g.withoutProducts) hg.emitting.scanning.frontend
      hg.emitting.scanning.directory htree hglobal
  obtain ⟨-, hnew, -, -⟩ := hexcludes.makeParts hmade
  obtain ⟨tree, entries', paths, -, hstarted, -, hstands, hresolve, hlayer, hiff⟩ :=
    exists_globalSnapshot hg.withoutProducts hspares hglobal
  subst hstarted
  -- The snapshot and the headers that all parts include are each looked at twice.
  cases hb.stands.normal.symm.trans hstands.normal
  cases hexcludes.known
  cases hexcludes.resolve.symm.trans hresolve
  refine ⟨⟨entries⟩, hb'.stands, List.forall₂_map_right_iff.2 (hnew.imp fun part made hpart => ?_)⟩
  obtain ⟨paths, hresolve', hpaths⟩ := hpart.2.exists_paths
  refine ⟨paths, hresolve', fun p hp hin => ?_⟩
  obtain ⟨e, he, rfl⟩ := List.mem_map.1 hin
  by_contra hnone
  push Not at hnone
  exact (hpaths _ hp).2 e.path ((hiff e.path).2 ⟨hnone, hlayer.wanted e he⟩) rfl

end Generator

end PrecompiledHeaders
