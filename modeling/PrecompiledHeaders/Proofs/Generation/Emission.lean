import PrecompiledHeaders.Proofs.FileTree.Making
import PrecompiledHeaders.Proofs.Frontend.Emit
import PrecompiledHeaders.Proofs.Generation.Includes
import PrecompiledHeaders.Proofs.Generation.Names

/-!
# Emissions of a generator

To make a precompiled header, a generator writes a header file into the output directory and has it
compiled. With the scanning frontend that leaves a snapshot which is a layer on top of the
precompiled header in front (`Generator.exists_layer`), and nothing else changes but the two files.

The snapshot is written under the normal form of its path. There it can be read again; under the
path as it is written it can be read if that is not too long (`Snapshot.StandsAt`).
-/

namespace PrecompiledHeaders

open FileTree

/-! ### Snapshots in files -/

namespace Snapshot

variable {snapshot : Snapshot} {tree tree' : FileTree} {p : Path} {written : Location → Prop}

/-- Whether a snapshot is in the file at the normal form of a path, and under the path as it is
    written unless that is too long. -/
structure StandsAt (snapshot : Snapshot) (tree : FileTree) (p : Path) : Prop where
  normal : Snapshot.read tree p.normalize = .ok snapshot
  written : p.bytes.length < pathLimit → Snapshot.read tree p = .ok snapshot

theorem read_of_evolves (h : Evolves written tree tree') (hsound : tree.IsSound)
    (hp : p.isAbsolute) (hnot : ¬written p.location) (hread : Snapshot.read tree p = .ok snapshot) :
    Snapshot.read tree' p = .ok snapshot := by
  unfold Snapshot.read at hread ⊢
  cases hraw : tree.read p with
  | error e =>
    rw [hraw] at hread
    cases hread
  | ok raw =>
    rw [hraw] at hread
    rw [h.read hsound hp hnot hraw]
    exact hread

theorem StandsAt.of_evolves (h : Evolves written tree tree') (hsound : tree.IsSound)
    (hp : p.isAbsolute) (hnot : ¬written p.location) (hs : snapshot.StandsAt tree p) :
    snapshot.StandsAt tree' p := by
  refine ⟨read_of_evolves h hsound (Path.isNormal_normalize hp).isAbsolute ?_ hs.normal,
    fun hlength => read_of_evolves h hsound hp hnot (hs.written hlength)⟩
  rwa [Path.location_normalize hp]

theorem read_of_find? {bytes : Bytes} (h : tree.find? p = some (.file bytes))
    (hbytes : snapshot.encode? = some bytes) : Snapshot.read tree p = .ok snapshot := by
  have hread : tree.read p = .ok bytes := FileTree.read_of_find? h
  rw [Snapshot.read, hread]
  exact decode_of_encode? hbytes

end Snapshot

/-- Generated files can be listed if the output directory can. -/
theorem IsFileOf.isListable {directory p : Path} {stem : List Char}
    (h : IsFileOf directory stem p.location) (hs : IsStem stem) (hd : directory.isAbsolute)
    (hlistable : directory.normalize.IsListable) (hp : p.IsNormal) : p.IsListable := by
  have hname {ending : String} (he : IsEnding ending) :
      ∀ c ∈ stem ++ ending.toList, c ≠ '\n' ∧ c ≠ '>' ∧ c ≠ '*' := by
    intro c hc
    have hsafe : c = '.' ∨ isSafe c = true :=
      (List.mem_append.1 hc).elim (fun hc => .inr (hs.safe c hc)) (he.safe c)
    refine ⟨?_, ?_, ?_⟩ <;> rintro rfl <;> revert hsafe <;> decide
  rcases h with h | h
  · exact hlistable.of_location hd hp (h.trans (location_headerFile directory hs))
      (hname isEnding_header)
  · exact hlistable.of_location hd hp (h.trans (location_precompiledFile directory hs))
      (hname isEnding_precompiled)

namespace Generator

variable {g g' written compiled : Generator} {p : Path} {text : Bytes}

/-- The generator with another tree. -/
def withTree (g : Generator) (tree : FileTree) : Generator :=
  g.withWorkspace { g.workspace with tree }

/-! ### Single steps -/

/-- A header file is written last, after the directories that lead to it. -/
theorem exists_write_of_writeHeader (h : g.writeHeader p text = (.ok (), g')) : ∃ made tree,
    (made = g.workspace.tree ∨ ∃ directory, p.parent? = some directory ∧
      made = (g.workspace.tree.makeDirectories directory).2) ∧
    made.write p text = .ok tree ∧ g' = g.withTree tree := by
  simp only [writeHeader] at h
  split at h
  · split at h
    · cases h
    · next tree hwrite =>
      cases h
      exact ⟨_, tree, .inl rfl, hwrite, rfl⟩
  · next directory hparent =>
    split at h
    · cases h
    · next made hmade =>
      split at h
      · cases h
      · next tree hwrite =>
        cases h
        exact ⟨made, tree, .inr ⟨directory, hparent, by rw [hmade]⟩, hwrite, rfl⟩

/-- A header file that was written is there, and nothing else has changed but directories. -/
theorem writeHeader_eq_ok (hsound : g.workspace.tree.IsSound) (hp : p.isAbsolute)
    (hnull : p.location ≠ locationOf ["dev", "null"])
    (h : g.writeHeader p text = (.ok (), g')) : ∃ tree,
      g' = g.withTree tree ∧
      Evolves (· = p.location) g.workspace.tree tree ∧ tree.find? p = some (.file text) := by
  obtain ⟨made, tree, hmade, hwrite, rfl⟩ := exists_write_of_writeHeader h
  have hevolves : Evolves (· = p.location) g.workspace.tree made := by
    rcases hmade with rfl | ⟨directory, hparent, rfl⟩
    · exact .refl _ _
    · exact makeDirectories_evolves hsound (isAbsolute_of_parent? hp hparent)
  obtain ⟨hwritten, hfind⟩ := write_eq_ok (hevolves.isSound hsound) hp hnull hwrite
  exact ⟨tree, rfl, hevolves.trans hwritten, hfind⟩

theorem emit_eq_ok (hscan : g.frontend = .scan) {arguments : List String} {heading : String}
    {header : Path} (h : g.emit arguments heading header = (.ok (), g')) : ∃ tree,
      g' = g.withTree tree ∧
      Scan.compile g.workspace.tree
        ⟨g.environment.compiler, arguments, g.environment.workingDirectory⟩ = (.ok (), tree) := by
  simp only [emit, hscan, Frontend.scan] at h
  cases hcompile : Scan.compile g.workspace.tree
      ⟨g.environment.compiler, arguments, g.environment.workingDirectory⟩ with
  | mk result tree =>
    rw [hcompile] at h
    cases result with
    | error e => cases h
    | ok done =>
      cases h
      exact ⟨tree, rfl, rfl⟩

theorem writeHeader_of_write {directory : Path} {made tree : FileTree}
    (hparent : p.parent? = some directory)
    (hmade : g.workspace.tree.makeDirectories directory = (.ok (), made))
    (hwrite : made.write p text = .ok tree) : g.writeHeader p text = (.ok (), g.withTree tree) := by
  simp only [writeHeader]
  rw [hparent]
  simp only [hmade, hwrite]
  rfl

/-- A header file that can be written changes the tree alone. -/
theorem writeHeader_of_isOk (h : (g.writeHeader p text).1.isOk = true) :
    g.writeHeader p text =
      (.ok (), g.withTree (g.writeHeader p text).2.workspace.tree) := by
  obtain ⟨tree, htree⟩ := g.writeHeader_eq p text
  cases hwrite : g.writeHeader p text with
  | mk result written =>
    rw [hwrite] at h htree
    cases result with
    | error e => cases h
    | ok done =>
      dsimp only at htree
      rw [htree]
      rfl

theorem emit_of_compile (hscan : g.frontend = .scan) {arguments : List String} {heading : String}
    {header : Path} {tree : FileTree}
    (h : Scan.compile g.workspace.tree
      ⟨g.environment.compiler, arguments, g.environment.workingDirectory⟩ = (.ok (), tree)) :
    g.emit arguments heading header = (.ok (), g.withTree tree) := by
  simp only [emit, hscan, Frontend.scan, h]
  rfl

/-! ### Trees in which something is made -/

/-- A header file is written where its path leads, and directories are made above it. -/
theorem writeHeader_gains (htree : g.workspace.tree.IsTree) {p : Path} {text : Bytes}
    (h : g.writeHeader p text = (.ok (), g')) : ∃ tree, g' = g.withTree tree ∧
      Gains (· = p) (· ∈ p.ancestors.tail) g.workspace.tree tree := by
  obtain ⟨made, tree, hmade, hwrite, rfl⟩ := exists_write_of_writeHeader h
  have hgains : Gains (· = p) (· ∈ p.ancestors.tail) g.workspace.tree made := by
    rcases hmade with rfl | ⟨directory, hparent, rfl⟩
    · exact .refl _ _ _
    · rw [Path.ancestors_of_parent? hparent]
      exact makeDirectories_gains htree (withoutSlashes_of_parent? hparent)
  exact ⟨tree, rfl, hgains.trans (write_gains (hgains.grows.isTree htree) hwrite)⟩

theorem writeHeader_grows (htree : g.workspace.tree.IsTree) {p : Path} {text : Bytes}
    (h : g.writeHeader p text = (.ok (), g')) :
    ∃ tree, g' = g.withTree tree ∧ Grows g.workspace.tree tree :=
  (writeHeader_gains htree h).imp fun _ hgains => ⟨hgains.1, hgains.2.grows⟩

/-- The compiler writes where its arguments say. -/
theorem emit_gains (htree : g.workspace.tree.IsTree) (hscan : g.frontend = .scan)
    {arguments : List String} {heading : String} {header : Path}
    (h : g.emit arguments heading header = (.ok (), g')) : ∃ tree, g' = g.withTree tree ∧
      Gains (fun p => ((Settings.ofArguments arguments).absolute
        g.environment.workingDirectory).output = some p) (fun _ => False) g.workspace.tree tree ∧
      Scan.compile g.workspace.tree
        ⟨g.environment.compiler, arguments, g.environment.workingDirectory⟩ = (.ok (), tree) := by
  obtain ⟨tree, rfl, hcompile⟩ := emit_eq_ok hscan h
  obtain ⟨scan, hrun, -, hemits, hkeeps⟩ := Scan.compile_eq_ok hcompile
  obtain ⟨unit, source, entries, -, -, -, rfl⟩ := Scan.run_eq_ok hrun
  refine ⟨tree, rfl, ?_, hcompile⟩
  cases hcases : ((Settings.ofArguments arguments).absolute g.environment.workingDirectory).emits with
  | false =>
    rw [hkeeps hcases]
    exact .refl _ _ _
  | true =>
    obtain ⟨output, bytes, houtput, -, hwrite⟩ := hemits hcases
    exact (write_gains htree hwrite).mono (fun _ heq => heq ▸ houtput) fun _ => id

theorem emit_grows (htree : g.workspace.tree.IsTree) (hscan : g.frontend = .scan)
    {arguments : List String} {heading : String} {header : Path}
    (h : g.emit arguments heading header = (.ok (), g')) :
    ∃ tree, g' = g.withTree tree ∧ Grows g.workspace.tree tree ∧ Scan.compile g.workspace.tree
      ⟨g.environment.compiler, arguments, g.environment.workingDirectory⟩ = (.ok (), tree) :=
  (emit_gains htree hscan h).imp fun _ hgains => ⟨hgains.1, hgains.2.1.grows, hgains.2.2⟩

/-! ### Emissions -/

/-- Whether a generator scans a tree as there is one on a disk, and puts its files into an absolute
    directory whose path is text. -/
structure IsEmitting (g : Generator) : Prop where
  scanning : g.IsScanning
  isSound : g.workspace.tree.IsSound
  isAbsolute : g.environment.outputDirectory.isAbsolute = true
  isText : g.environment.outputDirectory.IsText

/-- What else a generator holds does not matter, and the tree may evolve. -/
theorem IsEmitting.of_evolves (hg : g.IsEmitting) {tree : FileTree} {written : Location → Prop}
    (h : Evolves written g.workspace.tree tree) (table : PathTable) (sink : DiagnosticSink)
    (stage : Stage) : IsEmitting { g.withWorkspace ⟨tree, table, sink⟩ with stage } := by
  have hsound := h.isSound hg.isSound
  exact ⟨⟨hg.scanning.frontend, hg.scanning.directory, hsound.isPlain⟩, hsound, hg.isAbsolute,
    hg.isText⟩

variable {stem : List Char} {arguments : List String} {heading : String} {base : Option Path}
  {entries : List SnapshotEntry} {paths : List Path} {wanted : Path → Prop}

theorem IsEmitting.isEmitCall (hg : g.IsEmitting) (hstem : IsStem stem)
    (htakes : Settings.TakesInput arguments) (hbase : ∀ b ∈ base, b.isAbsolute = true ∧ b.IsText) :
    Scan.IsEmitCall arguments g.environment.workingDirectory
      (headerFile g.environment.outputDirectory stem)
      (precompiledFile g.environment.outputDirectory stem) base :=
  ⟨hg.scanning.directory, htakes,
    ⟨Path.isAbsolute_join hg.isAbsolute _, hg.isText.join
      (isName_fileName hstem isEnding_header).not_mem (isText_fileName stem ".h")⟩,
    ⟨Path.isAbsolute_join hg.isAbsolute _, hg.isText.join
      (isName_fileName hstem isEnding_precompiled).not_mem (isText_fileName stem ".pch")⟩, hbase⟩

theorem IsEmitting.isEmission (hg : g.IsEmitting) (hstem : IsStem stem)
    (hbare : Settings.IsBare arguments) (hbase : ∀ b ∈ base, b.isAbsolute = true ∧ b.IsText) :
    Scan.IsEmission arguments g.environment.workingDirectory
      (headerFile g.environment.outputDirectory stem)
      (precompiledFile g.environment.outputDirectory stem) base := by
  have hcall := hg.isEmitCall hstem hbare.openEnded.takesInput hbase
  exact ⟨hcall.directory, hbare, hcall.header, hcall.target, hcall.base⟩

/-- A snapshot that is written beside a header file is found there. -/
theorem standsAt_of_write {directory : Path} {tree tree' : FileTree} {snapshot : Snapshot}
    {source bytes : Bytes} (hdirectory : directory.isAbsolute) (hstem : IsStem stem)
    (hsound : tree.IsSound) (hfind : tree.find? (headerFile directory stem) = some (.file source))
    (hbytes : snapshot.encode? = some bytes)
    (hwrite : tree.write (precompiledFile directory stem).normalize bytes = .ok tree') :
    Evolves (· = (precompiledFile directory stem).location) tree tree' ∧
      snapshot.StandsAt tree' (precompiledFile directory stem) := by
  have hheader : (headerFile directory stem).isAbsolute := Path.isAbsolute_join hdirectory _
  have htarget : (precompiledFile directory stem).isAbsolute := Path.isAbsolute_join hdirectory _
  have hnull := location_precompiledFile_ne_null directory hstem
  rw [← Path.location_normalize htarget] at hnull
  obtain ⟨hevolves, hfind'⟩ :=
    write_eq_ok hsound (Path.isNormal_normalize htarget).isAbsolute hnull hwrite
  rw [Path.location_normalize htarget] at hevolves
  refine ⟨hevolves, Snapshot.read_of_find? hfind' hbytes, fun hlength => ?_⟩
  -- As it is written, the path goes the way of the header file.
  have hkept := hevolves.find? hsound hheader
    (location_headerFile_ne_precompiledFile directory hstem) (by simp) hfind
  exact Snapshot.read_of_find? (find?_sibling (hevolves.isSound hsound) hdirectory
    (isName_fileName hstem isEnding_header).not_mem (isName_fileName hstem isEnding_precompiled)
    (zero_not_mem_fileName hstem isEnding_precompiled) hkept hfind' hlength) hbytes

/-- A header file that lists headers, and is compiled, leaves a layer on top of what is in front. -/
theorem exists_layer (hg : g.IsEmitting) (hstem : IsStem stem) (hbare : Settings.IsBare arguments)
    (hbase : ∀ b ∈ base, b.isAbsolute = true ∧ b.IsText)
    (hentries : ∀ tree, Evolves (IsFileOf g.environment.outputDirectory stem) g.workspace.tree tree →
      Scan.baseEntries tree (base.toList.map Path.normalize) = .ok entries)
    (hnormal : ∀ e ∈ entries, e.path.IsNormal)
    (hclosed : Scan.IsClosed (Scan.search arguments g.environment.workingDirectory)
      g.workspace.tree entries wanted)
    (hpaths : ∀ p ∈ paths, wanted p)
    (hapart : ∀ q, wanted q → ¬g.environment.outputDirectory.IsBelow q)
    (hwrite : g.writeHeader (headerFile g.environment.outputDirectory stem)
      (Utf8.encode (String.join (paths.map includeLine)).toList) = (.ok (), written))
    (hemit : written.emit (Task.arguments arguments
        (.emit (headerFile g.environment.outputDirectory stem)
          (precompiledFile g.environment.outputDirectory stem) base)) heading
      (headerFile g.environment.outputDirectory stem) = (.ok (), compiled)) :
    ∃ tree new, compiled = g.withTree tree ∧
      Evolves (IsFileOf g.environment.outputDirectory stem) g.workspace.tree tree ∧
      Snapshot.StandsAt ⟨entries ++ new⟩ tree
        (precompiledFile g.environment.outputDirectory stem) ∧
      Snapshot.IsLayer entries new paths wanted := by
  have hemission := hg.isEmission hstem hbare hbase
  obtain ⟨hheader, -⟩ := hemission.header
  obtain ⟨htarget, -⟩ := hemission.target
  obtain ⟨tree, rfl, hevolves, hfind⟩ := writeHeader_eq_ok hg.isSound hheader
    (location_headerFile_ne_null _ hstem) hwrite
  have hsound := hevolves.isSound hg.isSound
  obtain ⟨tree', rfl, hcompile⟩ := emit_eq_ok (g := g.withTree tree) hg.scanning.frontend hemit
  obtain ⟨source, entries', new, bytes, hsource, hentries', hnew, hbytes, hwritten⟩ :=
    hemission.compile_eq_ok hcompile
  have hstart : Evolves (IsFileOf g.environment.outputDirectory stem) g.workspace.tree tree :=
    hevolves.mono fun _ => .inl
  -- What is compiled is what was written, on top of the entries that are known.
  cases (hentries tree hstart).symm.trans hentries'
  cases eq_of_read_normalize hsound hheader hfind hsource
  obtain ⟨hevolves', hstands⟩ :=
    standsAt_of_write hg.isAbsolute hstem hsound hfind hbytes hwritten
  refine ⟨tree', new, rfl, hstart.trans (hevolves'.mono fun _ => .inr), hstands, ?_⟩
  refine Scan.isLayer_of_walk hg.isSound (Scan.isAbsolute_search hg.scanning.directory arguments)
    (Path.isNormal_normalize hheader) ?_ hnormal hclosed hpaths (fun q hq heq => ?_) hnew
  · rwa [Path.location_normalize hheader]
  · rw [Path.location_normalize hheader] at heq
    exact hapart q hq ((Path.isBelow_join _
      (isName_fileName hstem isEnding_header)).of_location_eq heq)

end Generator

end PrecompiledHeaders
