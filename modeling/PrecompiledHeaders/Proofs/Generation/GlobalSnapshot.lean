import PrecompiledHeaders.Proofs.Generation.Emission
import PrecompiledHeaders.Proofs.Generation.Passes

/-!
# The precompiled header for all parts

The headers that all parts include are found part by part, walking over the units; the precompiled
header for all parts is made by walking over a header file that lists them. Both come to the same
(`Generator.global_snapshot_is_include_set`), since with a header all parts include what it includes:
the headers that are reached from each part with files (`Generator.IsShared`) are closed under
includes, files of the project among them (`Generator.isClosed_isShared`).
-/

namespace PrecompiledHeaders

open FileTree

/-- Whether all files of a tree have paths that can be listed. -/
def FileTree.IsListable (tree : FileTree) : Prop :=
  ∀ p : Path, p.IsNormal → tree.isFile p = true → p.IsListable

namespace Generator

variable {g g' : Generator} {part : ProjectPart} {arguments : List String} {avoid : Path → Prop}
  {artifact : Artifact} {p q r : Path} {i : Include}

/-! ### What is reached from a part -/

theorem ReachesFrom.isFile (h : g.ReachesFrom arguments avoid part q) (hq : q.IsNormal) :
    g.workspace.tree.isFile q = true := by
  obtain ⟨file, -, source, -, hreach⟩ := h
  rw [← hq.normalize_eq]
  exact hreach.isFile

theorem isNormal_of_target? (hg : g.IsScanning) (hq : q.IsNormal)
    (hi : i ∈ g.workspace.tree.includes q)
    (ht : i.target? (Scan.search arguments g.environment.workingDirectory) g.workspace.tree =
      some r) : r.IsNormal :=
  Include.isNormal_target (Scan.isAbsolute_search hg.directory arguments)
    (Include.isAbsolute_ofFile hq.isAbsolute hi) ht

theorem ReachesFrom.next (hg : g.IsScanning) (h : g.ReachesFrom arguments avoid part q)
    (hq : q.IsNormal) (hi : i ∈ g.workspace.tree.includes q)
    (ht : i.target? (Scan.search arguments g.environment.workingDirectory) g.workspace.tree =
      some r) (hr : ¬avoid r) : g.ReachesFrom arguments avoid part r := by
  obtain ⟨file, hfile, source, hsource, hreach⟩ := h
  rw [hq.normalize_eq] at hreach
  refine ⟨file, hfile, source, hsource, ?_⟩
  rw [(isNormal_of_target? hg hq hi ht).normalize_eq]
  exact .next hreach hi ht hr

/-! ### What is reached from all parts -/

/-- Whether a header is reached from each part with files, and there is such a part. -/
structure IsShared (g : Generator) (q : Path) : Prop where
  isNormal : q.IsNormal
  exists_files : ∃ part ∈ g.parts, part.files ≠ []
  reaches : ∀ part ∈ g.parts, part.files ≠ [] →
    g.ReachesFrom g.arguments (fun _ => False) part q

theorem IsShared.isFile (h : g.IsShared q) : g.workspace.tree.isFile q = true := by
  obtain ⟨part, hpart, hfiles⟩ := h.exists_files
  exact (h.reaches part hpart hfiles).isFile h.isNormal

/-- What is included by a shared header is shared. -/
theorem isClosed_isShared (hg : g.IsScanning) (hlistable : g.workspace.tree.IsListable) :
    Scan.IsClosed (Scan.search g.arguments g.environment.workingDirectory) g.workspace.tree []
      g.IsShared where
  isNormal _ hq := hq.isNormal
  isListable q hq := hlistable q hq.isNormal hq.isFile
  isFile _ hq := hq.isFile
  includes _ hq _ hi _ ht _ := ⟨isNormal_of_target? hg hq.isNormal hi ht, hq.exists_files,
    fun part hpart hfiles => (hq.reaches part hpart hfiles).next hg hq.isNormal hi ht id⟩

/-! ### The snapshot -/

/-- Whether nothing that is reached from a part is in the output directory. -/
def SparesOutput (g : Generator) (arguments : List String) (part : ProjectPart) : Prop :=
  ∀ p : Path, p.IsNormal → g.ReachesFrom arguments (fun _ => False) part p →
    ¬g.environment.outputDirectory.IsBelow p

theorem IsShared.not_isBelow (h : g.IsShared q)
    (hspares : ∀ part ∈ g.parts, g.SparesOutput g.arguments part) :
    ¬g.environment.outputDirectory.IsBelow q := by
  obtain ⟨part, hpart, hfiles⟩ := h.exists_files
  exact hspares part hpart q h.isNormal (h.reaches part hpart hfiles)

/-- The generator when the headers that all parts include have just been found. -/
def collected (g : Generator) : Generator := g.withoutGlobal.collectGlobal.2

/-- The headers that are found for all parts. -/
def found (g : Generator) : IncludeSet := g.withoutGlobal.collectGlobal.1

theorem IsScanning.withoutGlobal (hg : g.IsScanning) : g.withoutGlobal.IsScanning :=
  ⟨hg.frontend, hg.directory, hg.isPlain⟩

theorem IsScanning.tree_collected (hg : g.IsScanning) :
    g.collected.workspace.tree = g.workspace.tree :=
  hg.withoutGlobal.tree_collectParts _ _

theorem IsEmitting.collected (hg : g.IsEmitting) : g.collected.IsEmitting := by
  have htree := hg.scanning.tree_collected
  exact ⟨⟨hg.scanning.frontend, hg.scanning.directory, htree ▸ hg.scanning.isPlain⟩,
    htree ▸ hg.isSound, hg.isAbsolute, hg.isText⟩

/-- The headers that are found for all parts are those outside of the project that are shared. -/
theorem holds_found_iff (hg : g.IsScanning) (hparts : ∀ part ∈ g.parts, part.IsRegular)
    (hp : p.IsNormal) : g.found.Holds g.collected.workspace.table p ↔
      (∀ part ∈ g.parts, ∀ file ∈ part.files, file.normalize ≠ p) ∧ g.IsShared p := by
  refine (holds_collectGlobal_iff hg.withoutGlobal hparts p).trans ?_
  rw [hp.normalize_eq]
  exact and_congr_right fun _ => ⟨fun h => ⟨hp, h.1, h.2⟩, fun h => ⟨h.exists_files, h.reaches⟩⟩

/-- Whether a generator emits for a project whose files can all be listed, and whose parts are
    regular and force no includes. -/
structure IsRegular (g : Generator) : Prop where
  emitting : g.IsEmitting
  isListable : g.workspace.tree.IsListable
  parts : ∀ part ∈ g.parts, part.IsRegular
  bare : ∀ part ∈ g.parts, Settings.IsBare part.arguments

/-- The precompiled header for all parts, when it is made, is a layer of its own. -/
theorem exists_globalSnapshot (hg : g.IsRegular)
    (hspares : ∀ part ∈ g.parts, g.SparesOutput g.arguments part)
    (h : g.makeGlobal = (.ok artifact, g')) :
    ∃ tree entries paths, artifact = g.globalProduct g.found ∧
      g' = { g.collected.withTree tree with
        globalArtifact := some artifact, emitted := true, stage := .globalEmitted } ∧
      Evolves (IsFileOf g.environment.outputDirectory globalStem) g.workspace.tree tree ∧
      Snapshot.StandsAt ⟨entries⟩ tree g.globalFile ∧
      g.collected.workspace.table.resolve g.found.order = .ok paths ∧
      Snapshot.IsLayer [] entries paths g.IsShared ∧
      ∀ p : Path, p ∈ paths ↔
        (∀ part ∈ g.parts, ∀ file ∈ part.files, file.normalize ≠ p) ∧ g.IsShared p := by
  obtain ⟨text, written, compiled, htext, hwrite, hemit, rfl, rfl⟩ := makeGlobal_eq_ok h
  have hscanning := hg.emitting.scanning
  obtain ⟨paths, hresolve, hnormal, hmem⟩ :=
    (collectGlobal_isSound hscanning.withoutGlobal.listsAbsolute).exists_resolve
  have hiff (p : Path) : p ∈ paths ↔
      (∀ part ∈ g.parts, ∀ file ∈ part.files, file.normalize ≠ p) ∧ g.IsShared p := by
    constructor
    · intro hp
      exact (holds_found_iff hscanning hg.parts (hnormal p hp)).1 ((hmem p (hnormal p hp)).1 hp)
    · intro hp
      exact (hmem p hp.2.isNormal).2 ((holds_found_iff hscanning hg.parts hp.2.isNormal).2 hp)
  cases (headerText_eq hresolve).symm.trans htext
  have htree := hscanning.tree_collected
  have hclosed : Scan.IsClosed (Scan.search g.arguments g.environment.workingDirectory)
      g.collected.workspace.tree [] g.IsShared :=
    htree ▸ isClosed_isShared hscanning hg.isListable
  obtain ⟨tree, entries, rfl, hevolves, hstands, hlayer⟩ :=
    exists_layer hg.emitting.collected isStem_globalStem (.flatMap hg.bare)
      (fun b hb => by cases hb) (fun _ _ => rfl) (fun e he => absurd he List.not_mem_nil) hclosed
      (fun p hp => ((hiff p).1 hp).2) (fun q hq => hq.not_isBelow hspares) hwrite hemit
  exact ⟨tree, entries, paths, rfl, rfl, htree ▸ hevolves, hstands, hresolve, hlayer, hiff⟩

/-! ### A project with one header

The source `/a.cpp` includes the empty header `/x.h`, and files go into `/out`, which may be written
with slashes at its end. -/

/-- The source with its header, and some output directory. -/
def pairAt (directory : Path) : Generator :=
  { pair with environment := { pair.environment with outputDirectory := directory } }

/-- The source with its header, and an output directory with slashes at its end. -/
def pairIn (count : Nat) : Generator :=
  { pair with
    environment := { pair.environment with
      outputDirectory := (Path.ofString "/out").withSlashes count } }

theorem isSound_pair : pair.workspace.tree.IsSound :=
  isSound_of_entries (by simp [pair, entryAt])

/-- The source and the header are all files, whatever they hold. -/
theorem eq_or_eq_of_isFile {tree : FileTree} (hsound : tree.IsSound)
    (hentries : ∀ e ∈ tree.entries, e.2.isFile = true →
      e.1 = (Path.ofString "/a.cpp").location ∨ e.1 = (Path.ofString "/x.h").location)
    (hp : p.IsNormal) (h : tree.isFile p = true) :
    p = .ofString "/a.cpp" ∨ p = .ofString "/x.h" := by
  obtain ⟨entry, hfind, hfile⟩ := (isFile_iff _ p).1 h
  have hat := ((hsound.find?_eq_some_iff hp).1 hfind).2
  exact (hentries _ (mem_entries_of_isFile hat hfile) hfile).imp
    (hp.eq_of_location_eq ⟨by decide, by decide⟩) (hp.eq_of_location_eq ⟨by decide, by decide⟩)

theorem isFile_pair (hp : p.IsNormal) (h : pair.workspace.tree.isFile p = true) :
    p = .ofString "/a.cpp" ∨ p = .ofString "/x.h" :=
  eq_or_eq_of_isFile isSound_pair (by decide) hp h

theorem isRegular_pairIn (count : Nat) : (pairIn count).IsRegular := by
  have habsolute : ((Path.ofString "/out").withSlashes count).isAbsolute = true :=
    Path.isAbsolute_withSlashes (by decide) count
  have htext : ((Path.ofString "/out").withSlashes count).IsText :=
    (Path.isText_ofString "/out").withSlashes count
  refine ⟨⟨⟨rfl, rfl, isPlain_pair⟩, isSound_pair, habsolute, htext⟩, fun p hp hfile => ?_,
    fun part hpart => ?_, fun part hpart => ?_⟩
  · rcases isFile_pair hp hfile with rfl | rfl
    · exact ⟨Path.isText_ofString _, by with_unfolding_all decide, by with_unfolding_all decide,
        by with_unfolding_all decide⟩
    · exact ⟨Path.isText_ofString _, by with_unfolding_all decide, by with_unfolding_all decide,
        by with_unfolding_all decide⟩
  · rw [List.mem_singleton.1 hpart]
    exact isRegular_pairPart
  · rw [List.mem_singleton.1 hpart]
    exact Settings.isBare_nil

theorem location_out (count : Nat) :
    (pairIn count).environment.outputDirectory.location = locationOf ["out"] :=
  (Path.location_withSlashes _ count).trans (by decide)

theorem not_isBelow_out {directory : Path} (hlocation : directory.location = locationOf ["out"])
    (hp : p.IsNormal) (h : pair.workspace.tree.isFile p = true) : ¬directory.IsBelow p := by
  rw [Path.IsBelow, hlocation]
  rcases isFile_pair hp h with rfl | rfl <;> decide

theorem not_isBelow_pairIn (hp : p.IsNormal) (h : pair.workspace.tree.isFile p = true)
    (count : Nat) : ¬(pairIn count).environment.outputDirectory.IsBelow p :=
  not_isBelow_out (location_out count) hp h

theorem includes_pair : pair.workspace.tree.includes (.ofString "/x.h") = [] := by
  with_unfolding_all decide

theorem roots_pair : Scan.roots [] .root (.ofString "/a.cpp")
    (Path.ofString "#include \"x.h\"\n").bytes =
      [⟨.ofString "/a.cpp", .root, ⟨.quoted, "x.h".toList⟩⟩] := by
  with_unfolding_all decide

theorem isNormal_source_pair : (Path.ofString "/a.cpp").IsNormal := ⟨by decide, by decide⟩

theorem preprocess_pair : Scan.preprocess pair.workspace.tree
    ⟨"clang++", Task.arguments [] (.preprocess (.ofString "/a.cpp")), .root⟩ [] =
      .ok ⟨[.ofString "/x.h"], []⟩ := by
  have hread : pair.workspace.tree.read (.ofString "/a.cpp") =
      .ok (Path.ofString "#include \"x.h\"\n").bytes := by decide
  have hleads : Include.target? (Scan.search [] .root) pair.workspace.tree
      ⟨.ofString "/a.cpp", .root, ⟨.quoted, "x.h".toList⟩⟩ = some (.ofString "/x.h") := by decide
  have hvisited : pair.workspace.tree.identity (.ofString "/x.h") ∉
      Scan.visitedBefore pair.workspace.tree .root [] [] (.ofString "/a.cpp") := by decide
  have hevents : Include.walk (Scan.search [] .root) pair.workspace.tree
      (Scan.visitedBefore pair.workspace.tree .root [] [] (.ofString "/a.cpp"))
      (Scan.roots [] .root (.ofString "/a.cpp") (Path.ofString "#include \"x.h\"\n").bytes) =
        [.entered (.ofString "/x.h") []] := by
    rw [roots_pair, Include.walk_of_entered hleads hvisited, includes_pair, List.nil_append,
      Include.walk]
    rfl
  exact Scan.preprocess_of_walk Settings.isOpenEnded_nil isNormal_source_pair
    (Path.isText_ofString _) hread hevents

/-- The set with the header of the pair. -/
def pairFound : IncludeSet := IncludeSet.empty.insert ⟨0⟩

/-- The table with the header of the pair. -/
def pairTable : PathTable := ⟨#["/x.h".toList]⟩

theorem id_pairTable : PathTable.empty.id (.ofString "/x.h") = (⟨0⟩, pairTable) := by
  have hnormal : (Path.ofString "/x.h").normalize = .ofString "/x.h" := by decide
  rw [PathTable.id_of_new (PathTable.get?_empty _), hnormal, Path.key_ofString (by decide)]
  rfl

theorem resolve_pairFound : pairTable.resolve pairFound.order = .ok [.ofString "/x.h"] := by
  have horder : pairFound.order = [⟨0⟩] := by
    simp [pairFound, IncludeSet.insert, IncludeSet.contains, IncludeSet.empty]
  rw [horder]
  rfl

theorem collect_pair : (pair.globalCollector pairPart).collect pair.workspace =
    ({ pair.globalCollector pairPart with found := pairFound },
      ⟨pair.workspace.tree, pairTable, .empty⟩) := by
  have hproject : (pair.globalCollector pairPart).isProjectFile (.ofString "/x.h") = false := by
    decide
  have hid : pair.workspace.table.id (.ofString "/x.h") = (⟨0⟩, pairTable) := id_pairTable
  refine (Collector.collect_of_unit pair.workspace Frontend.leavesFiles_scan (by decide) (by decide)
    preprocess_pair).trans ?_
  simp only [Collector.addHeaders, hproject, Bool.false_eq_true, if_false, hid]
  rfl

theorem collectGlobal_pairAt (directory : Path) :
    (pairAt directory).withoutGlobal.collectGlobal =
      (pairFound, { (pairAt directory).withoutGlobal with
        workspace := ⟨pair.workspace.tree, pairTable, .empty⟩
        globalIncludes := some pairFound
        stage := .includesKnown }) := by
  -- What is collected does not depend on where files go.
  have hcollect : ((pairAt directory).withoutGlobal.globalCollector pairPart).collect
      (pairAt directory).withoutGlobal.workspace = _ := collect_pair
  have hparts : (pairAt directory).withoutGlobal.collectParts
      (pairAt directory).withoutGlobal.workspace (pairAt directory).withoutGlobal.parts =
      ([pairFound], ⟨pair.workspace.tree, pairTable, .empty⟩) := by
    have hfiles : pairPart.headerAndSourcePaths ≠ [] := by decide
    refine (collectParts_of_files hfiles).trans ?_
    rw [hcollect]
    rfl
  simp only [collectGlobal, hparts]
  rfl

/-! #### Emitting -/

/-- The text of the header file. -/
def pairText : Bytes := (Path.ofString "#include </x.h>\n").bytes

/-- The snapshot of the header. -/
def pairSnapshot : Snapshot := ⟨[⟨.ofString "/x.h", .ofBytes []⟩]⟩

/-- The bytes of the snapshot. -/
def pairBytes : Bytes := pairSnapshot.encode?.getD []

theorem encode?_pairSnapshot : pairSnapshot.encode? = some pairBytes := by
  obtain ⟨bytes, hbytes⟩ := Option.isSome_iff_exists.1
    (by with_unfolding_all decide : pairSnapshot.encode?.isSome = true)
  rw [pairBytes, hbytes]
  rfl

/-- The tree with the output directory. -/
def pairPrepared : FileTree := pair.workspace.tree.set (locationOf ["out"]) .directory

/-- The tree with the header file. -/
def pairListed : FileTree :=
  pairPrepared.set (locationOf ["out", "global-pch.h"]) (.file pairText)

/-- The tree with the precompiled header. -/
def pairEmitted : FileTree :=
  pairListed.set (locationOf ["out", "global-pch.pch"]) (.file pairBytes)

theorem normalize_headerFile_pairIn (count : Nat) {stem : List Char} (h : IsStem stem) :
    (headerFile (pairIn count).environment.outputDirectory stem).normalize =
      Location.path (fileName stem ".h" :: locationOf ["out"]) := by
  have habsolute :
      (headerFile (pairIn count).environment.outputDirectory stem).isAbsolute = true :=
    Path.isAbsolute_join (isRegular_pairIn count).emitting.isAbsolute _
  rw [Path.normalize_eq_path habsolute, location_headerFile _ h, location_out]

theorem normalize_precompiledFile_pairIn (count : Nat) {stem : List Char} (h : IsStem stem) :
    (precompiledFile (pairIn count).environment.outputDirectory stem).normalize =
      Location.path (fileName stem ".pch" :: locationOf ["out"]) := by
  have habsolute :
      (precompiledFile (pairIn count).environment.outputDirectory stem).isAbsolute = true :=
    Path.isAbsolute_join (isRegular_pairIn count).emitting.isAbsolute _
  rw [Path.normalize_eq_path habsolute, location_precompiledFile _ h, location_out]

/-- A header file can be written into the output directory as long as its path is not too long. -/
theorem writeHeader_pairIn {count : Nat} {g : Generator} {stem : List Char} {text : Bytes}
    {made : FileTree} (hstem : IsStem stem) (hlimit : (fileName stem ".h").length ≤ nameLimit)
    (hlength : count + 5 + (fileName stem ".h").length < pathLimit)
    (hmade : g.workspace.tree.makeDirectories (.ofString "/out") = (.ok (), made))
    (hplain : made.IsPlain) (hout : made.entryAt (locationOf ["out"]) = some .directory)
    (hfree : made.entryAt (fileName stem ".h" :: locationOf ["out"]) = none) :
    g.writeHeader (headerFile (pairIn count).environment.outputDirectory stem) text =
      (.ok (), g.withTree
        (made.set (fileName stem ".h" :: locationOf ["out"]) (.file text))) := by
  have hname := isName_fileName hstem isEnding_header
  have hsegments :
      (Path.ofString "/out").segments = [] :: ([] ++ [(Path.ofString "out").bytes]) := by decide
  have hfits : (Path.ofString "/out").Fits := ⟨by decide, by decide, by decide⟩
  have hlast : Path.IsName (Path.ofString "out").bytes :=
    ⟨by decide, by decide, by decide, by decide⟩
  have hfour : (Path.ofString "/out").bytes.length = 4 := by decide
  refine writeHeader_of_write (Path.parent?_join_withSlashes hsegments hlast hname) hmade ?_
  rw [← location_out count] at hfree ⊢
  refine write_of_free hplain (isRegular_pairIn count).emitting.isAbsolute hname
    (hfits.withSlashes hname.not_mem (zero_not_mem_fileName hstem isEnding_header) hlimit ?_)
    (passesTo_withSlashes count hname.not_mem ?_) hfree _
  · omega
  · rw [hsegments]
    exact ⟨rfl, rfl, hout⟩

theorem compile_pairIn (count : Nat) : Scan.compile pairListed
    ⟨"clang++", (pairIn count).globalEmitArguments, .root⟩ = (.ok (), pairEmitted) := by
  have hemission : Scan.IsEmission [] .root (pairIn count).globalHeaderFile
      (pairIn count).globalFile none :=
    (isRegular_pairIn count).emitting.isEmission isStem_globalStem Settings.isBare_nil
      fun b hb => by cases hb
  have hheader : (pairIn count).globalHeaderFile.normalize = .ofString "/out/global-pch.h" :=
    (normalize_headerFile_pairIn count isStem_globalStem).trans (by decide)
  have htarget : (pairIn count).globalFile.normalize = .ofString "/out/global-pch.pch" :=
    (normalize_precompiledFile_pairIn count isStem_globalStem).trans (by decide)
  have hroots : Include.ofFile (.ofString "/out/global-pch.h") pairText =
      [⟨.ofString "/out/global-pch.h", .ofString "/out", ⟨.angled, "/x.h".toList⟩⟩] := by
    with_unfolding_all decide
  have hleads : Include.target? (Scan.search [] .root) pairListed
      ⟨.ofString "/out/global-pch.h", .ofString "/out", ⟨.angled, "/x.h".toList⟩⟩ =
        some (.ofString "/x.h") := by decide
  have hvisited : pairListed.identity (.ofString "/x.h") ∉
      Scan.visitedBefore pairListed .root [] [] (.ofString "/out/global-pch.h") := by decide
  have hincludes : pairListed.includes (.ofString "/x.h") = [] := by with_unfolding_all decide
  have hcontents : (pairListed.read (.ofString "/x.h")).toOption.getD [] = [] := by decide
  have hsource : pairListed.read (pairIn count).globalHeaderFile.normalize = .ok pairText := by
    rw [hheader]
    decide
  have hevents : Include.walk (Scan.search [] .root) pairListed
      (Scan.visitedBefore pairListed .root [] [] (pairIn count).globalHeaderFile.normalize)
      (Include.ofFile (pairIn count).globalHeaderFile.normalize pairText) =
        [.entered (.ofString "/x.h") []] := by
    rw [hheader, hroots, Include.walk_of_entered hleads hvisited, hincludes, hcontents,
      List.nil_append, Include.walk]
  refine hemission.compile_of_walk hsource rfl hevents rfl (fun _ => rfl) encode?_pairSnapshot ?_
  rw [htarget]
  with_unfolding_all rfl

/-- The precompiled header for all parts is made if its header file can be written and compiled. -/
theorem makeGlobal_pairAt {directory : Path}
    (hwrite : ∀ g : Generator, g.workspace.tree = pair.workspace.tree →
      g.writeHeader (headerFile directory globalStem) pairText = (.ok (), g.withTree pairListed))
    (hcompile : Scan.compile pairListed
      ⟨"clang++", (pairAt directory).globalEmitArguments, .root⟩ = (.ok (), pairEmitted)) :
    (pairAt directory).makeGlobal = (.ok ((pairAt directory).globalProduct pairFound),
      { (pairAt directory).withWorkspace ⟨pairEmitted, pairTable, .empty⟩ with
        globalIncludes := some pairFound
        globalArtifact := some ((pairAt directory).globalProduct pairFound)
        emitted := true
        stage := .globalEmitted }) := by
  have hcollect := collectGlobal_pairAt directory
  have htext : headerText (pairAt directory).withoutGlobal.collectGlobal.2.workspace.table
      (pairAt directory).withoutGlobal.collectGlobal.1.order = .ok "#include </x.h>\n" := by
    rw [hcollect]
    exact (headerText_eq resolve_pairFound).trans (by with_unfolding_all decide)
  have htree : (pairAt directory).withoutGlobal.collectGlobal.2.workspace.tree =
      pair.workspace.tree := by
    rw [hcollect]
  refine (makeGlobal_of_emit htext (hwrite _ htree) (emit_of_compile rfl hcompile)).trans ?_
  rw [hcollect]
  rfl

/-- The header file for all parts can be written as long as its path is not too long. -/
theorem writeHeader_pairIn_global {count : Nat} (hlength : count + 17 < pathLimit) (g : Generator)
    (htree : g.workspace.tree = pair.workspace.tree) :
    g.writeHeader (headerFile (pairIn count).environment.outputDirectory globalStem) pairText =
      (.ok (), g.withTree pairListed) := by
  have hname : (fileName globalStem ".h").length = 12 := by decide
  have hmade : pair.workspace.tree.makeDirectories (.ofString "/out") = (.ok (), pairPrepared) := by
    with_unfolding_all rfl
  have hplain : pairPrepared.IsPlain :=
    isPlain_of_entries (by simp [pairPrepared, FileTree.set, pair])
  exact writeHeader_pairIn isStem_globalStem (by rw [hname]; decide) (by rwa [hname])
    (htree ▸ hmade) hplain (by decide) (by decide)

theorem makeGlobal_pairIn {count : Nat} (hlength : count + 17 < pathLimit) :
    (pairIn count).makeGlobal = (.ok ((pairIn count).globalProduct pairFound),
      { (pairIn count).withWorkspace ⟨pairEmitted, pairTable, .empty⟩ with
        globalIncludes := some pairFound
        globalArtifact := some ((pairIn count).globalProduct pairFound)
        emitted := true
        stage := .globalEmitted }) :=
  makeGlobal_pairAt (writeHeader_pairIn_global hlength) (compile_pairIn count)

end Generator

end PrecompiledHeaders
