import PrecompiledHeaders.Proofs.Generation.GlobalSnapshot

/-!
# The precompiled headers of parts

The precompiled header of a part is emitted on top of the one for all parts: its snapshot has the
entries of that one and then new ones (`Generator.part_snapshots_build_on_global`). The headers that
the part adds are collected with the headers excluded that all parts include, while the emission
leaves out what the precompiled header in front holds, which is more: files of the project are among
it. So a header that the part adds may be in front already, but none is lost, and nothing comes up
that the part does not add and that is no file of it.

While the parts are made one after the other, the files of each are written beside those of the
others, so what was there before stays (`Generator.BuildsOn`).
-/

namespace PrecompiledHeaders

open FileTree

namespace Generator

variable {g g' start : Generator} {part : ProjectPart} {parts : List ProjectPart}
  {arguments : List String} {avoid : Path → Prop} {entries : List SnapshotEntry} {p q r : Path}

/-! ### Collecting on top of what is known -/

theorem holdsGlobal_iff {includes : IncludeSet} (hsome : g.globalIncludes = some includes)
    (p : Path) : g.HoldsGlobal p ↔ includes.Holds g.workspace.table p := by
  rw [HoldsGlobal, knownGlobal, hsome]

/-- What a part adds when the headers that all parts include are known. -/
theorem collectPart_eq_ok (hg : g.IsScanning) {includes found : IncludeSet}
    (hsome : g.globalIncludes = some includes) (hsound : includes.IsSound g.workspace.table)
    (hpart : part.IsRegular) (h : g.collectPart part = (.ok found, g')) :
    ∃ table sink, g' = { g.withWorkspace ⟨g.workspace.tree, table, sink⟩ with
        stage := .partIncludesKnown part.id } ∧
      g.workspace.table ≤ table ∧ found.IsSound table ∧
      ∀ p : Path, p.IsNormal → (found.Holds table p ↔
        (∀ file ∈ part.files, file.normalize ≠ p) ∧
          g.ReachesFrom part.arguments g.HoldsGlobal part p) := by
  have hknows : g.KnowsGlobal := fun _ h => by
    cases hsome.symm.trans h
    exact hsound
  obtain ⟨excluded, hresolve, -⟩ := hsound.exists_resolve
  obtain ⟨found', hfound', hiff⟩ := holds_collectPart_iff hg hknows hpart
  have hcollect : g.collectPart part = _ := collectPart_of_known hsome hresolve
  have htakes := (Collector.collect_takes (c := g.addingCollector part excluded)
    hg.listsAbsolute.frontend hg.directory g.workspace).2
  have htree : ((g.addingCollector part excluded).collect g.workspace).2.tree = g.workspace.tree :=
    hg.tree_collect _ _ _ _ g.workspace
  rw [h] at hfound' hiff
  cases hfound'
  cases hcollect.symm.trans h
  refine ⟨_, ((g.addingCollector part excluded).collect g.workspace).2.sink, ?_, htakes.le,
    htakes.sound (.empty _), fun p hp => ?_⟩
  · rw [← htree]
    rfl
  · rw [hiff, hp.normalize_eq]

/-! ### What is reached from a part -/

theorem ReachesFrom.of_avoid_false (h : g.ReachesFrom arguments avoid part p) :
    g.ReachesFrom arguments (fun _ => False) part p := by
  obtain ⟨file, hfile, source, hsource, hreach⟩ := h
  exact ⟨file, hfile, source, hsource, hreach.mono (fun _ => False.elim) fun _ => id⟩

/-- Whether a header is reached from a part over headers that not all parts include. -/
structure IsOwn (g : Generator) (part : ProjectPart) (p : Path) : Prop where
  isNormal : p.IsNormal
  reaches : g.ReachesFrom part.arguments g.HoldsGlobal part p

/-- What is included by a header of a part, and is not in front, is a header of the part. -/
theorem isClosed_isOwn (hg : g.IsScanning)
    (hholds : ∀ p : Path, p.IsNormal → g.HoldsGlobal p → p ∈ entries.map SnapshotEntry.path)
    (hlistable : ∀ p, g.IsOwn part p → p.IsListable) :
    Scan.IsClosed (Scan.search part.arguments g.environment.workingDirectory) g.workspace.tree
      entries (g.IsOwn part) where
  isNormal _ hq := hq.isNormal
  isListable := hlistable
  isFile _ hq := hq.reaches.isFile hq.isNormal
  includes _ hq _ hi r ht hnot := by
    have hr : r.IsNormal := isNormal_of_target? hg hq.isNormal hi ht
    exact ⟨hr, hq.reaches.next hg hq.isNormal hi ht (mt (hholds r hr) hnot)⟩

/-! ### Building on the precompiled header for all parts -/

/-- Whether a location is that of a generated file. -/
def IsGenerated (g : Generator) (location : Location) : Prop :=
  ∃ stem, (stem = globalStem ∨ ∃ part ∈ g.parts, stem = partStem part.id) ∧
    IsFileOf g.environment.outputDirectory stem location

theorem IsGenerated.isBelow (h : g.IsGenerated p.location) :
    g.environment.outputDirectory.IsBelow p := by
  obtain ⟨stem, rfl | ⟨part, -, rfl⟩, hfile⟩ := h
  · exact hfile.isBelow isStem_globalStem
  · exact hfile.isBelow (isStem_partStem part.id)

/-- What is there while parts are made: only generated files were written, and the precompiled header
    for all parts holds some entries, with all headers among them that are known of all parts. -/
structure BuildsOn (start g : Generator) (entries : List SnapshotEntry) : Prop where
  emitting : g.IsEmitting
  environment : g.environment = start.environment
  evolves : Evolves start.IsGenerated start.workspace.tree g.workspace.tree
  stands : Snapshot.StandsAt ⟨entries⟩ g.workspace.tree start.globalFile
  knows : ∃ includes, g.globalIncludes = some includes ∧ includes.IsSound g.workspace.table
  holds : ∀ p : Path, p.IsNormal → g.HoldsGlobal p → p ∈ entries.map SnapshotEntry.path

theorem isAbsolute_globalFile (hg : g.IsEmitting) : g.globalFile.isAbsolute = true :=
  Path.isAbsolute_join hg.isAbsolute _

theorem isText_globalFile (hg : g.IsEmitting) : g.globalFile.IsText :=
  hg.isText.join (isName_fileName isStem_globalStem isEnding_precompiled).not_mem
    (isText_fileName globalStem ".pch")

/-- The files of a part do not touch the precompiled header for all parts. -/
theorem not_isFileOf_globalFile (g : Generator) (part : ProjectPart) :
    ¬IsFileOf g.environment.outputDirectory (partStem part.id) g.globalFile.location :=
  not_isFileOf_precompiledFile isStem_globalStem (isStem_partStem part.id)
    (partStem_ne_globalStem part.id).symm

/-- The files of a part are written, and more ids are given. -/
theorem BuildsOn.goesOn (hb : BuildsOn start g entries) (hpart : part ∈ start.parts)
    {tree : FileTree} {table : PathTable} {sink : DiagnosticSink} {stage : Stage}
    (hevolves : Evolves (IsFileOf start.environment.outputDirectory (partStem part.id))
      g.workspace.tree tree) (hle : g.workspace.table ≤ table) :
    BuildsOn start { g.withWorkspace ⟨tree, table, sink⟩ with stage } entries := by
  obtain ⟨includes, hsome, hsound⟩ := hb.knows
  have hg := hb.emitting
  refine ⟨hg.of_evolves hevolves table sink stage, hb.environment,
    hb.evolves.trans (hevolves.mono fun _ h => ⟨_, .inr ⟨part, hpart, rfl⟩, h⟩), ?_,
    ⟨includes, hsome, hsound.mono hle⟩, fun p hp hholds => ?_⟩
  · refine hb.stands.of_evolves hevolves hg.isSound ?_ (not_isFileOf_globalFile start part)
    exact Path.isAbsolute_join (hb.environment ▸ hg.isAbsolute) _
  · have hsome' : ({ g.withWorkspace ⟨tree, table, sink⟩ with stage } : Generator).globalIncludes =
        some includes := hsome
    refine hb.holds p hp ((holdsGlobal_iff hsome p).2 ?_)
    exact (hsound.holds_iff_of_le hle).1 ((holdsGlobal_iff hsome' p).1 hholds)

/-- Nothing that is reached from a part was generated. -/
theorem BuildsOn.not_isBelow_of_isOwn (hb : BuildsOn start g entries)
    (hspares : ∀ tree, Evolves start.IsGenerated start.workspace.tree tree →
      (start.withTree tree).SparesOutput part.arguments part) (hp : g.IsOwn part p) :
    ¬start.environment.outputDirectory.IsBelow p := by
  refine hspares _ hb.evolves p hp.isNormal ?_
  have hreaches := hp.reaches.of_avoid_false
  rw [ReachesFrom, hb.environment] at hreaches
  exact hreaches

/-- What is reached from a part was there from the start, so it can be listed. -/
theorem BuildsOn.isClosed_isOwn (hb : BuildsOn start g entries) (hstart : start.IsRegular)
    (hapart : ∀ p, g.IsOwn part p → ¬start.environment.outputDirectory.IsBelow p) :
    Scan.IsClosed (Scan.search part.arguments g.environment.workingDirectory) g.workspace.tree
      entries (g.IsOwn part) := by
  refine Generator.isClosed_isOwn hb.emitting.scanning hb.holds fun p hp => ?_
  refine hstart.isListable p hp.isNormal ?_
  have hkept := hb.evolves.isFile_iff hstart.emitting.isSound hp.isNormal fun hgen =>
    hapart p hp hgen.isBelow
  rw [← hkept]
  exact hp.reaches.isFile hp.isNormal

/-- The files of a part leave the precompiled header for all parts alone. -/
theorem BuildsOn.baseEntries_eq {tree : FileTree} (hb : BuildsOn start g entries)
    (hevolves : Evolves (IsFileOf g.environment.outputDirectory (partStem part.id))
      g.workspace.tree tree) : Scan.baseEntries tree [g.globalFile.normalize] = .ok entries := by
  have hstands := hb.stands
  rw [globalFile, ← hb.environment] at hstands
  have hread := (hstands.of_evolves hevolves hb.emitting.isSound (isAbsolute_globalFile hb.emitting)
    (not_isFileOf_globalFile g part)).normal
  rw [Scan.baseEntries, hread]
  exact congrArg Except.ok (List.append_nil entries)

/-! ### A part -/

/-- Whether the precompiled header that was made for a part is a layer on top of the entries of the one
    for all parts: with the headers that the part adds come only files of the part. -/
structure IsLayered (g : Generator) (entries : List SnapshotEntry) (part : ProjectPart)
    (artifact : Artifact) : Prop where
  path : artifact.path = g.partFile part
  known : ∀ id ∈ artifact.includes, ∃ p : Path, g.workspace.table.get? p = some id
  exists_layer : ∃ new paths, Snapshot.StandsAt ⟨entries ++ new⟩ g.workspace.tree artifact.path ∧
    g.workspace.table.resolve artifact.includes = .ok paths ∧
    Snapshot.IsLayer entries new paths fun p => p ∈ paths ∨ ∃ file ∈ part.files, file.normalize = p

/-- What is emitted for a part is a layer, and what was in front stays. -/
theorem BuildsOn.makePart {made : Artifact × PartIncludes} (hb : BuildsOn start g entries)
    (hstart : start.IsRegular) (hnormal : ∀ e ∈ entries, e.path.IsNormal)
    (hmem : part ∈ start.parts)
    (hspares : ∀ tree, Evolves start.IsGenerated start.workspace.tree tree →
      (start.withTree tree).SparesOutput part.arguments part)
    (h : g.makePart part = (.ok made, g')) :
    BuildsOn start g' entries ∧ g'.IsLayered entries part made.1 ∧
      Evolves (IsFileOf start.environment.outputDirectory (partStem part.id)) g.workspace.tree
        g'.workspace.tree ∧ g.workspace.table ≤ g'.workspace.table := by
  obtain ⟨includes, collected, text, written, compiled, hcollect, htext, hwrite, hemit, rfl, rfl⟩ :=
    makePart_eq_ok h
  have hg := hb.emitting
  obtain ⟨known, hsome, hknown⟩ := hb.knows
  obtain ⟨table, sink, rfl, hle, hincludes, hiff⟩ :=
    collectPart_eq_ok hg.scanning hsome hknown (hstart.parts part hmem) hcollect
  obtain ⟨paths, hresolve, hpaths, hholds⟩ := hincludes.exists_resolve
  cases (headerText_eq hresolve).symm.trans htext
  have hapart (p : Path) (hp : g.IsOwn part p) : ¬start.environment.outputDirectory.IsBelow p :=
    hb.not_isBelow_of_isOwn hspares hp
  have hcollected := hg.of_evolves (.refl (fun _ => False) _) table sink (.partIncludesKnown part.id)
  have hfront : ∀ b ∈ some g.globalFile, b.isAbsolute = true ∧ b.IsText := fun b hb => by
    cases hb
    exact ⟨isAbsolute_globalFile hg, isText_globalFile hg⟩
  obtain ⟨tree, new, rfl, hevolves, hstands, hlayer⟩ := exists_layer hcollected
    (isStem_partStem part.id) (hstart.bare part hmem) hfront (fun _ => hb.baseEntries_eq) hnormal
    (hb.isClosed_isOwn hstart hapart)
    (fun p hp => ⟨hpaths p hp, ((hiff p (hpaths p hp)).1 ((hholds p (hpaths p hp)).1 hp)).2⟩)
    (fun p hp => hb.environment ▸ hapart p hp) hwrite hemit
  have hevolves' : Evolves (IsFileOf start.environment.outputDirectory (partStem part.id))
      g.workspace.tree tree := hb.environment ▸ hevolves
  refine ⟨hb.goesOn hmem hevolves' hle, ⟨rfl, fun id hid => ?_, new, paths, hstands, hresolve, ?_⟩,
    hevolves', hle⟩
  · exact (hincludes.known id hid).imp fun _ h => h.2
  refine { hlayer with wanted := fun e he => ?_ }
  have hown := hlayer.wanted e he
  by_cases hfile : ∃ file ∈ part.files, file.normalize = e.path
  · exact .inr hfile
  · have hadded := (hiff _ hown.isNormal).2
      ⟨fun file hf heq => hfile ⟨file, hf, heq⟩, hown.reaches⟩
    exact .inl ((hholds _ hown.isNormal).2 hadded)

/-! ### All parts -/

/-- What was made for a part is left alone when the files of others are written. -/
theorem IsLayered.of_evolves {artifact : Artifact} {written : Location → Prop}
    (h : g.IsLayered entries part artifact) (hg : g.IsEmitting)
    (henvironment : g'.environment = g.environment)
    (hevolves : Evolves written g.workspace.tree g'.workspace.tree)
    (hnot : ¬written (g.partFile part).location)
    (hle : g.workspace.table ≤ g'.workspace.table) : g'.IsLayered entries part artifact := by
  obtain ⟨new, paths, hstands, hresolve, hlayer⟩ := h.exists_layer
  refine ⟨?_, fun id hid => ?_, new, paths, ?_, ?_, hlayer⟩
  · rw [h.path, partFile, partFile, henvironment]
  · exact (h.known id hid).imp fun p hp => hle p id hp
  · rw [h.path] at hstands ⊢
    exact hstands.of_evolves hevolves hg.isSound (Path.isAbsolute_join hg.isAbsolute _) hnot
  · rw [PathTable.resolve_of_le hle h.known, hresolve]

/-- Parts with different stems are made one after the other, each on top of the precompiled header for
    all parts. -/
theorem BuildsOn.makeParts {made : List (Artifact × PartIncludes)} (hb : BuildsOn start g entries)
    (hstart : start.IsRegular) (hnormal : ∀ e ∈ entries, e.path.IsNormal)
    (hmem : ∀ part ∈ parts, part ∈ start.parts)
    (hstems : parts.Pairwise fun part other => partStem part.id ≠ partStem other.id)
    (hspares : ∀ tree, Evolves start.IsGenerated start.workspace.tree tree →
      ∀ part ∈ start.parts, (start.withTree tree).SparesOutput part.arguments part)
    (h : g.makeParts parts = (.ok made, g')) :
    BuildsOn start g' entries ∧
      List.Forall₂ (fun part made => g'.IsLayered entries part made.1) parts made ∧
      Evolves (fun location => ∃ part ∈ parts,
        IsFileOf start.environment.outputDirectory (partStem part.id) location)
        g.workspace.tree g'.workspace.tree ∧ g.workspace.table ≤ g'.workspace.table := by
  induction parts generalizing g made with
  | nil =>
    cases h
    exact ⟨hb, .nil, .refl _ _, PathTable.le_refl _⟩
  | cons part rest ih =>
    obtain ⟨first, after, others, hfirst, hrest, rfl⟩ := makeParts_cons_eq_ok h
    obtain ⟨hapart, hstems⟩ := List.pairwise_cons.1 hstems
    obtain ⟨hafter, hlayered, hevolves, hle⟩ := hb.makePart hstart hnormal
      (hmem part List.mem_cons_self) (fun tree htree => hspares tree htree part
        (hmem part List.mem_cons_self)) hfirst
    obtain ⟨hb', hothers, hevolves', hle'⟩ := ih hafter
      (fun part hpart => hmem part (List.mem_cons_of_mem _ hpart)) hstems hrest
    refine ⟨hb', .cons ?_ hothers, ?_, PathTable.le_trans hle hle'⟩
    · -- The files of the parts that follow have other stems.
      refine hlayered.of_evolves hafter.emitting
        (hb'.environment.trans hafter.environment.symm) hevolves' ?_ hle'
      rintro ⟨other, hother, hfile⟩
      rw [partFile, hafter.environment] at hfile
      exact not_isFileOf_precompiledFile (isStem_partStem _) (isStem_partStem _)
        (hapart other hother) hfile
    · refine (hevolves.mono fun _ hfile => ?_).trans (hevolves'.mono fun _ hfile => ?_)
      · exact ⟨part, List.mem_cons_self, hfile⟩
      · obtain ⟨other, hother, hfile⟩ := hfile
        exact ⟨other, List.mem_cons_of_mem _ hother, hfile⟩

/-! ### The project with one header -/

/-- The stem of the files of the part. -/
theorem partStem_pair : partStem pairPart.id = "pair-59f46094a707c37a".toList := by decide +kernel

theorem reaches_pair {tree : FileTree} {avoid : Path → Prop} {p : Path}
    (hincludes : tree.includes (.ofString "/x.h") = [])
    (h : Reaches (Scan.search [] .root) tree avoid
      [⟨.ofString "/a.cpp", .root, ⟨.quoted, "x.h".toList⟩⟩] p) : p = .ofString "/x.h" := by
  induction h with
  | @start i q hi ht _ =>
    have hcandidates : (Scan.search [] .root).candidates .root ⟨.quoted, "x.h".toList⟩ =
        [.ofString "/x.h"] := by decide
    rw [List.mem_singleton.1 hi] at ht
    have hmem := List.mem_of_find?_eq_some ht
    rw [hcandidates] at hmem
    exact List.mem_singleton.1 hmem
  | next _ hi _ _ ih =>
    rw [ih, hincludes] at hi
    exact absurd hi List.not_mem_nil

/-- Only the header is reached, as long as the source is as it was and the header includes nothing. -/
theorem eq_of_reachesFrom_pairPart {tree : FileTree} {p : Path}
    (hread : tree.read (.ofString "/a.cpp") = .ok (Path.ofString "#include \"x.h\"\n").bytes)
    (hincludes : tree.includes (.ofString "/x.h") = []) (hp : p.IsNormal)
    (h : (pair.withTree tree).ReachesFrom pairPart.arguments (fun _ => False) pairPart p) :
    p = .ofString "/x.h" := by
  obtain ⟨file, hfile, source, hopen, hreach⟩ := h
  rw [List.mem_singleton.1 hfile, isNormal_source_pair.normalize_eq] at hopen hreach
  cases hread.symm.trans hopen
  rw [hp.normalize_eq] at hreach
  have hroots : Scan.roots pairPart.arguments (pair.withTree tree).environment.workingDirectory
    (.ofString "/a.cpp") (Path.ofString "#include \"x.h\"\n").bytes = _ := roots_pair
  rw [hroots] at hreach
  exact reaches_pair hincludes hreach

/-- Whatever is generated, only the header is reached. -/
theorem sparesOutput_pairAt {directory : Path} (hlocation : directory.location = locationOf ["out"])
    {tree : FileTree} (h : Evolves (pairAt directory).IsGenerated pair.workspace.tree tree) :
    ((pairAt directory).withTree tree).SparesOutput pairPart.arguments pairPart := by
  have hapart {q : Path} (hn : q.IsNormal) (hq : pair.workspace.tree.isFile q = true) :
      ¬(pairAt directory).IsGenerated q.location := fun hgenerated =>
    not_isBelow_out hlocation hn hq hgenerated.isBelow
  have hsource := isNormal_source_pair
  have hheader : (Path.ofString "/x.h").IsNormal := ⟨by decide, by decide⟩
  have hread : tree.read (.ofString "/a.cpp") = .ok (Path.ofString "#include \"x.h\"\n").bytes :=
    h.read isSound_pair hsource.isAbsolute (hapart hsource (by decide)) (by decide)
  have hincludes : tree.includes (.ofString "/x.h") = [] := by
    rw [h.includes_eq isSound_pair hheader (hapart hheader (by decide)), includes_pair]
  intro p hp hreaches
  rw [eq_of_reachesFrom_pairPart hread hincludes hp hreaches]
  exact not_isBelow_out hlocation hheader (by decide)

theorem preprocess_pairEmitted : Scan.preprocess pairEmitted
    ⟨"clang++", Task.arguments [] (.preprocess (.ofString "/a.cpp")), .root⟩
      [.ofString "/x.h"] = .ok ⟨[], []⟩ := by
  have hread : pairEmitted.read (.ofString "/a.cpp") =
      .ok (Path.ofString "#include \"x.h\"\n").bytes := by decide
  have hleads : Include.target? (Scan.search [] .root) pairEmitted
      ⟨.ofString "/a.cpp", .root, ⟨.quoted, "x.h".toList⟩⟩ = some (.ofString "/x.h") := by decide
  have hvisited : pairEmitted.identity (.ofString "/x.h") ∈
      Scan.visitedBefore pairEmitted .root [.ofString "/x.h"] [] (.ofString "/a.cpp") := by decide
  have hevents : Include.walk (Scan.search [] .root) pairEmitted
      (Scan.visitedBefore pairEmitted .root [.ofString "/x.h"] [] (.ofString "/a.cpp"))
      (Scan.roots [] .root (.ofString "/a.cpp") (Path.ofString "#include \"x.h\"\n").bytes) =
        [] := by
    rw [roots_pair, Include.walk_of_visited hleads hvisited, Include.walk]
  exact Scan.preprocess_of_walk Settings.isOpenEnded_nil isNormal_source_pair
    (Path.isText_ofString _) hread hevents

/-- The generator with the precompiled header for all parts. -/
def pairStartedAt (directory : Path) : Generator :=
  { (pairAt directory).withWorkspace ⟨pairEmitted, pairTable, .empty⟩ with
    globalIncludes := some pairFound
    globalArtifact := some ((pairAt directory).globalProduct pairFound)
    emitted := true
    stage := .globalEmitted }

/-- The generator with the precompiled header for all parts, in a directory with slashes at its
    end. -/
def pairStarted (count : Nat) : Generator :=
  { (pairIn count).withWorkspace ⟨pairEmitted, pairTable, .empty⟩ with
    globalIncludes := some pairFound
    globalArtifact := some ((pairIn count).globalProduct pairFound)
    emitted := true
    stage := .globalEmitted }

theorem collectPart_pairStartedAt (directory : Path) :
    (pairStartedAt directory).collectPart pairPart =
      (.ok .empty, { pairStartedAt directory with stage := .partIncludesKnown "pair" }) := by
  have hunits : (pair.addingCollector pairPart [.ofString "/x.h"]).units = [.ofString "/a.cpp"] := by
    decide
  have hmissing : (pair.addingCollector pairPart [.ofString "/x.h"]).missingExclusions pairEmitted =
      [] := by decide
  have hpre : ((pair.addingCollector pairPart [.ofString "/x.h"]).frontend.preprocess pairEmitted
      ((pair.addingCollector pairPart [.ofString "/x.h"]).invocation (.ofString "/a.cpp"))
      (pair.addingCollector pairPart [.ofString "/x.h"]).excluded).1 = .ok ⟨[], []⟩ :=
    preprocess_pairEmitted
  have hcollect : (pair.addingCollector pairPart [.ofString "/x.h"]).collect
      ⟨pairEmitted, pairTable, .empty⟩ =
        (pair.addingCollector pairPart [.ofString "/x.h"], ⟨pairEmitted, pairTable, .empty⟩) :=
    (Collector.collect_of_unit ⟨pairEmitted, pairTable, .empty⟩ Frontend.leavesFiles_scan hunits
      hmissing hpre).trans rfl
  have hpart : (pairStartedAt directory).collectPart pairPart = _ :=
    collectPart_of_resolve resolve_pairFound
  -- What is collected does not depend on where files go.
  have hcollect' : ((pairStartedAt directory).knownGlobal.2.addingCollector pairPart
    [.ofString "/x.h"]).collect (pairStartedAt directory).knownGlobal.2.workspace = _ := hcollect
  rw [hpart, hcollect']
  rfl

/-- The tree with the header file of the part, which lists nothing. -/
def pairPartListed : FileTree :=
  pairEmitted.set (locationOf ["out", "pair-59f46094a707c37a.h"]) (.file [])

/-- The tree with the precompiled header of the part. -/
def pairPartEmitted : FileTree :=
  pairPartListed.set (locationOf ["out", "pair-59f46094a707c37a.pch"]) (.file pairBytes)

theorem compile_pairStarted (count : Nat) : Scan.compile pairPartListed
    ⟨"clang++", (pairStarted count).partEmitArguments pairPart, .root⟩ =
      (.ok (), pairPartEmitted) := by
  have hemitting := (isRegular_pairIn count).emitting
  have hemission : Scan.IsEmission [] .root ((pairIn count).partHeaderFile pairPart)
      ((pairIn count).partFile pairPart) (some (pairIn count).globalFile) :=
    hemitting.isEmission (isStem_partStem pairPart.id) Settings.isBare_nil fun b hb => by
      cases hb
      exact ⟨isAbsolute_globalFile hemitting, isText_globalFile hemitting⟩
  have hheader : ((pairIn count).partHeaderFile pairPart).normalize =
      .ofString "/out/pair-59f46094a707c37a.h" :=
    (normalize_headerFile_pairIn count (isStem_partStem _)).trans (by rw [partStem_pair]; decide)
  have htarget : ((pairIn count).partFile pairPart).normalize =
      .ofString "/out/pair-59f46094a707c37a.pch" :=
    (normalize_precompiledFile_pairIn count (isStem_partStem _)).trans
      (by rw [partStem_pair]; decide)
  have hfront : (pairIn count).globalFile.normalize = .ofString "/out/global-pch.pch" :=
    (normalize_precompiledFile_pairIn count isStem_globalStem).trans (by decide)
  have hsource : pairPartListed.read ((pairIn count).partHeaderFile pairPart).normalize = .ok [] := by
    rw [hheader]
    decide
  have hfind : pairPartListed.find? (.ofString "/out/global-pch.pch") = some (.file pairBytes) := by
    rfl
  have hbase : Scan.baseEntries pairPartListed [(pairIn count).globalFile.normalize] =
      .ok pairSnapshot.entries := by
    rw [hfront, Scan.baseEntries, Snapshot.read_of_find? hfind encode?_pairSnapshot]
    rfl
  have hbytes : Snapshot.encode? ⟨pairSnapshot.entries ++ []⟩ = some pairBytes :=
    encode?_pairSnapshot
  refine hemission.compile_of_walk hsource hbase (Include.walk_ofFile_nil _ _) rfl (fun _ => rfl)
    hbytes ?_
  rw [htarget]
  with_unfolding_all rfl

/-- The part is made if its header file, which lists nothing, can be written and compiled. -/
theorem makePart_pairStartedAt {directory : Path}
    (hwrite : ∀ g : Generator, g.workspace.tree = pairEmitted →
      g.writeHeader (headerFile directory (partStem pairPart.id)) [] =
        (.ok (), g.withTree pairPartListed))
    (hcompile : Scan.compile pairPartListed
      ⟨"clang++", (pairStartedAt directory).partEmitArguments pairPart, .root⟩ =
        (.ok (), pairPartEmitted)) :
    (pairStartedAt directory).makePart pairPart =
      (.ok ((pairStartedAt directory).partProduct pairPart .empty),
        { pairStartedAt directory with
          workspace := ⟨pairPartEmitted, pairTable, .empty⟩
          stage := .partEmitted "pair" }) :=
  (makePart_of_emit rfl (collectPart_pairStartedAt directory) (headerText_eq rfl) (hwrite _ rfl)
    (emit_of_compile rfl hcompile)).trans rfl

/-- The header file of the part can be written as long as its path is not too long. -/
theorem writeHeader_pairStarted {count : Nat} (hlength : count + 28 < pathLimit) (g : Generator)
    (htree : g.workspace.tree = pairEmitted) :
    g.writeHeader (headerFile (pairIn count).environment.outputDirectory (partStem pairPart.id)) [] =
      (.ok (), g.withTree pairPartListed) := by
  have hname : (fileName (partStem pairPart.id) ".h").length = 23 := by
    rw [partStem_pair]
    decide
  have hmade : pairEmitted.makeDirectories (.ofString "/out") = (.ok (), pairEmitted) := by
    with_unfolding_all rfl
  have hplain : pairEmitted.IsPlain :=
    isPlain_of_entries (by simp [pairEmitted, pairListed, pairPrepared, FileTree.set, pair])
  have hwrite : g.writeHeader _ [] = _ :=
    writeHeader_pairIn (isStem_partStem pairPart.id) (by rw [hname]; decide)
      (by rw [hname]; omega) (htree ▸ hmade) hplain (by decide) (by rw [partStem_pair]; decide)
  refine hwrite.trans ?_
  rw [partStem_pair]
  rfl

/-- The pass goes well if the files can be written and compiled. -/
theorem generate_pairAt {directory : Path}
    (hwrite : ∀ g : Generator, g.workspace.tree = pair.workspace.tree →
      g.writeHeader (headerFile directory globalStem) pairText = (.ok (), g.withTree pairListed))
    (hcompile : Scan.compile pairListed
      ⟨"clang++", (pairAt directory).globalEmitArguments, .root⟩ = (.ok (), pairEmitted))
    (hwrite' : ∀ g : Generator, g.workspace.tree = pairEmitted →
      g.writeHeader (headerFile directory (partStem pairPart.id)) [] =
        (.ok (), g.withTree pairPartListed))
    (hcompile' : Scan.compile pairPartListed
      ⟨"clang++", (pairStartedAt directory).partEmitArguments pairPart, .root⟩ =
        (.ok (), pairPartEmitted)) :
    (pairAt directory).generate = (.ok (), { pairStartedAt directory with
      workspace := ⟨pairPartEmitted, pairTable, .empty⟩
      partArtifacts := [((pairStartedAt directory).partProduct pairPart .empty).1]
      partIncludes := [((pairStartedAt directory).partProduct pairPart .empty).2]
      stage := .done }) := by
  have hglobal : (pairAt directory).withoutProducts.makeGlobal =
      (.ok _, pairStartedAt directory) := makeGlobal_pairAt hwrite hcompile
  have hparts : (pairStartedAt directory).makeParts [pairPart] =
      (.ok [(pairStartedAt directory).partProduct pairPart .empty], { pairStartedAt directory with
        workspace := ⟨pairPartEmitted, pairTable, .empty⟩
        stage := .partEmitted "pair" }) := by
    simp only [makeParts, makePart_pairStartedAt hwrite' hcompile']
  exact (generate_of_makeParts hglobal hparts).trans rfl

theorem generate_pairIn {count : Nat} (hlength : count + 28 < pathLimit) :
    (pairIn count).generate = (.ok (), { pairStarted count with
      workspace := ⟨pairPartEmitted, pairTable, .empty⟩
      partArtifacts := [((pairStarted count).partProduct pairPart .empty).1]
      partIncludes := [((pairStarted count).partProduct pairPart .empty).2]
      stage := .done }) :=
  generate_pairAt (writeHeader_pairIn_global (by omega)) (compile_pairIn count)
    (writeHeader_pairStarted hlength) (compile_pairStarted count)

/-! ### A whole pass -/

theorem IsRegular.withoutProducts (hg : g.IsRegular) : g.withoutProducts.IsRegular := by
  have hemitting := hg.emitting
  exact ⟨⟨⟨hemitting.scanning.frontend, hemitting.scanning.directory, hemitting.scanning.isPlain⟩,
    hemitting.isSound, hemitting.isAbsolute, hemitting.isText⟩, hg.isListable, hg.parts, hg.bare⟩

/-- Parts can build on the precompiled header for all parts as soon as it is made. -/
theorem exists_buildsOn {artifact : Artifact} (hg : g.IsRegular)
    (hspares : ∀ part ∈ g.parts, g.SparesOutput g.arguments part)
    (h : g.makeGlobal = (.ok artifact, g')) : ∃ entries, BuildsOn g g' entries ∧
      (∀ e ∈ entries, e.path.IsNormal) ∧ (entries.map SnapshotEntry.path).Nodup := by
  have hscanning := hg.emitting.scanning
  obtain ⟨tree, entries, paths, -, rfl, hevolves, hstands, -, hlayer, hiff⟩ :=
    exists_globalSnapshot hg hspares h
  have hsound := hevolves.isSound hg.emitting.isSound
  refine ⟨entries, ⟨⟨⟨hscanning.frontend, hscanning.directory, hsound.isPlain⟩, hsound,
    hg.emitting.isAbsolute, hg.emitting.isText⟩, rfl,
    hevolves.mono fun _ hfile => ⟨globalStem, .inl rfl, hfile⟩, hstands,
    ⟨g.found, rfl, collectGlobal_isSound hscanning.withoutGlobal.listsAbsolute⟩,
    fun p hp hholds => ?_⟩, fun e he => (hlayer.wanted e he).isNormal, hlayer.nodup⟩
  exact hlayer.covers p ((hiff p).2 ((holds_found_iff hscanning hg.parts hp).1 hholds))

end Generator

end PrecompiledHeaders
