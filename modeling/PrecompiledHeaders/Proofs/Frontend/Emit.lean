import PrecompiledHeaders.Proofs.Frontend.Preprocess
import PrecompiledHeaders.Proofs.Include.Change
import PrecompiledHeaders.Proofs.Include.Listing
import PrecompiledHeaders.Proofs.Snapshot.RoundTrip

/-!
# Emitting precompiled headers

What the scanning frontend does when it is asked to emit a precompiled header
(`Scan.IsEmission.compile_eq_ok`): it walks over the includes of the header file, where the header
file itself and what the precompiled header in front holds count as visited, and writes a snapshot
of the headers in front and behind them those that it has entered. If the header file lists headers,
these are a layer on top of the ones in front (`Scan.isLayer_of_walk`): each is there once, and with
them comes only what is reached from them in the tree without the header file.
-/

namespace PrecompiledHeaders

/-- What a snapshot holds on top of the entries of another: new headers, each once, which are all
    among the wanted ones, and together with the others all that are listed. -/
structure Snapshot.IsLayer (entries new : List SnapshotEntry) (listed : List Path)
    (wanted : Path → Prop) : Prop where
  nodup : (new.map SnapshotEntry.path).Nodup
  disjoint : ∀ e ∈ new, e.path ∉ entries.map SnapshotEntry.path
  wanted : ∀ e ∈ new, wanted e.path
  covers : ∀ p ∈ listed, p ∈ (entries ++ new).map SnapshotEntry.path

namespace Scan

variable {tree tree' : FileTree} {compiler : String} {arguments : List String}
  {directory header target : Path} {base : Option Path} {bases : List Path}
  {invocation : Invocation} {scan : Scan} {entries : List SnapshotEntry}

/-- A compilation that emits has written a snapshot. -/
theorem compile_eq_ok (h : compile tree invocation = (.ok (), tree')) : ∃ scan,
    run tree invocation [] = .ok scan ∧ scan.unresolved = [] ∧
      (scan.settings.emits = true → ∃ output bytes, scan.settings.output = some output ∧
        Snapshot.encode? ⟨scan.base ++ scan.entries⟩ = some bytes ∧
        tree.write output bytes = .ok tree') ∧
      (scan.settings.emits = false → tree' = tree) := by
  cases hrun : run tree invocation [] with
  | error e =>
    rw [compile, hrun] at h
    cases h
  | ok scan =>
    simp only [compile, hrun] at h
    refine ⟨scan, rfl, ?_⟩
    split at h
    · cases h
    next hresolved =>
    refine ⟨Decidable.of_not_not hresolved, fun hemits => ?_, fun hemits => ?_⟩
    · simp only [hemits, if_true] at h
      cases houtput : scan.settings.output with
      | none =>
        rw [houtput] at h
        cases h
      | some output =>
        simp only [houtput, writeSnapshot] at h
        split at h
        · cases h
        next bytes hbytes =>
        split at h
        · cases h
        next hwrite =>
        cases h
        exact ⟨output, bytes, rfl, hbytes, hwrite⟩
    · simp only [hemits, Bool.false_eq_true, if_false] at h
      cases h
      rfl

/-- What is in front is a snapshot, or that is what the scan fails over. -/
theorem exists_invalid_of_baseEntries {e : FrontendError} (h : baseEntries tree bases = .error e) :
    ∃ p reason, e = .invalidSnapshot p reason := by
  induction bases with
  | nil => cases h
  | cons first rest ih =>
    rw [baseEntries] at h
    split at h
    · cases h
      exact ⟨_, _, rfl⟩
    · cases hrest : baseEntries tree rest with
      | error e' =>
        rw [hrest] at h
        cases h
        exact ih hrest
      | ok entries =>
        rw [hrest] at h
        cases h

theorem run_ne_failed {program stderr : String} {status : Option Int} {excluded : List Path} :
    run tree invocation excluded ≠ .error (.failed program status stderr) := by
  intro h
  simp only [run] at h
  split at h
  · cases h
  split at h
  · cases h
  cases hbase : baseEntries tree
      ((Settings.ofArguments invocation.arguments).absolute invocation.directory).bases with
  | error e =>
    obtain ⟨_, _, rfl⟩ := exists_invalid_of_baseEntries hbase
    rw [hbase] at h
    cases h
  | ok entries =>
    rw [hbase] at h
    cases h

/-- What a compilation can fail over, in the order in which it is found out. Only the last comes with
    the attempt to write. -/
inductive Fails (tree : FileTree) (invocation : Invocation) : FrontendError → Prop
  /-- The arguments name no input, or the input or what is in front of it cannot be read. -/
  | scanning {e : FrontendError} : run tree invocation [] = .error e → Fails tree invocation e
  /-- Some includes lead to no file. -/
  | unresolved {scan : Scan} : run tree invocation [] = .ok scan → scan.unresolved ≠ [] →
    Fails tree invocation (.failed invocation.compiler (some 1)
      ("\n".intercalate (scan.unresolved.map complaint)))
  /-- It is not said where the precompiled header goes. -/
  | nowhere {scan : Scan} : run tree invocation [] = .ok scan → scan.unresolved = [] →
    scan.settings.emits = true → scan.settings.output = none →
    Fails tree invocation .missingOutput
  /-- A path does not go into a snapshot. -/
  | codec {scan : Scan} {output : Path} : run tree invocation [] = .ok scan →
    scan.unresolved = [] → scan.settings.emits = true → scan.settings.output = some output →
    Snapshot.encode? ⟨scan.base ++ scan.entries⟩ = none →
    Fails tree invocation (.invalidSnapshot output .codec)
  /-- The snapshot is complete, and cannot be written. -/
  | writing {scan : Scan} {output : Path} {bytes : Bytes} {reason : FileError} :
    run tree invocation [] = .ok scan → scan.unresolved = [] → scan.settings.emits = true →
    scan.settings.output = some output →
    Snapshot.encode? ⟨scan.base ++ scan.entries⟩ = some bytes →
    tree.write output bytes = .error reason →
    Fails tree invocation (.unwritable output reason)

/-- Each failure of a compilation is one of these, and nothing has been written then. -/
theorem fails_of_compile {e : FrontendError} (h : compile tree invocation = (.error e, tree')) :
    Fails tree invocation e ∧ tree' = tree := by
  cases hrun : run tree invocation [] with
  | error e' =>
    rw [compile, hrun] at h
    cases h
    exact ⟨.scanning hrun, rfl⟩
  | ok scan =>
    simp only [compile, hrun] at h
    split at h
    · next hunresolved =>
      cases h
      exact ⟨.unresolved hrun hunresolved, rfl⟩
    next hresolved =>
    have hresolved := Decidable.of_not_not hresolved
    split at h
    · next hemits =>
      cases houtput : scan.settings.output with
      | none =>
        rw [houtput] at h
        cases h
        exact ⟨.nowhere hrun hresolved hemits houtput, rfl⟩
      | some output =>
        simp only [houtput, writeSnapshot] at h
        split at h
        · next hbytes =>
          cases h
          exact ⟨.codec hrun hresolved hemits houtput hbytes, rfl⟩
        next bytes hbytes =>
        split at h
        · next hwrite =>
          cases h
          exact ⟨.writing hrun hresolved hemits houtput hbytes hwrite, rfl⟩
        · cases h
    · cases h

/-- A compilation fails in the way of a compiler if and only if there are unresolved includes. -/
theorem compile_eq_failed_iff :
    (∃ program status stderr,
      (compile tree invocation).1 = .error (.failed program status stderr)) ↔
      ∃ scan, run tree invocation [] = .ok scan ∧ scan.unresolved ≠ [] := by
  constructor
  · rintro ⟨program, status, stderr, h⟩
    cases (fails_of_compile (Prod.ext h rfl)).1 with
    | scanning hrun => exact absurd hrun run_ne_failed
    | unresolved hrun hunresolved => exact ⟨_, hrun, hunresolved⟩
  · rintro ⟨scan, hrun, hne⟩
    refine ⟨invocation.compiler, some 1,
      "\n".intercalate (scan.unresolved.map complaint), ?_⟩
    simp only [compile, hrun, hne, ne_eq, not_false_eq_true, if_true]

/-- A scan without unresolved includes is all that an emission takes, besides the writing. -/
theorem compile_of_run {output : Path} {bytes : Bytes}
    (hrun : run tree invocation [] = .ok scan) (hresolved : scan.unresolved = [])
    (hemits : scan.settings.emits = true) (houtput : scan.settings.output = some output)
    (hbytes : Snapshot.encode? ⟨scan.base ++ scan.entries⟩ = some bytes)
    (hwrite : tree.write output bytes = .ok tree') : compile tree invocation = (.ok (), tree') := by
  simp only [compile, hrun, hresolved, ne_eq, not_true_eq_false, if_false, hemits, if_true,
    houtput, writeSnapshot, hbytes, hwrite]

/-- What is in front can be read one part after the other. -/
theorem baseEntries_append {others : List Path}
    (h : baseEntries tree (bases ++ others) = .ok entries) : ∃ own front,
      baseEntries tree bases = .ok own ∧ baseEntries tree others = .ok front ∧
        entries = own ++ front := by
  rw [baseEntries_append_eq] at h
  cases hown : baseEntries tree bases with
  | error e =>
    rw [hown] at h
    cases h
  | ok own =>
    cases hfront : baseEntries tree others with
    | error e =>
      rw [hown, hfront] at h
      cases h
    | ok front =>
      rw [hown, hfront] at h
      cases h
      exact ⟨own, front, rfl, rfl, rfl⟩

/-- Whether an emitting task comes behind arguments that take an input, and has paths that are
    absolute and text. -/
structure IsEmitCall (arguments : List String) (directory header target : Path)
    (base : Option Path) : Prop where
  directory : directory.isAbsolute = true
  takesInput : Settings.TakesInput arguments
  header : header.isAbsolute = true ∧ header.IsText
  target : target.isAbsolute = true ∧ target.IsText
  base : ∀ b ∈ base, b.isAbsolute = true ∧ b.IsText

namespace IsEmitCall

/-- What the arguments of an emitting task say. -/
theorem absolute_eq (he : IsEmitCall arguments directory header target base) :
    (Settings.ofArguments (Task.arguments arguments (.emit header target base))).absolute directory =
      { (Settings.ofArguments arguments).absolute directory with
        bases := ((Settings.ofArguments arguments).absolute directory).bases ++
          base.toList.map Path.normalize
        output := some target.normalize
        emits := true
        inputs := [header.normalize] } := by
  have hbases : base.toList.map directory.normalizeFrom = base.toList.map Path.normalize :=
    List.map_congr_left fun b hb =>
      Path.normalizeFrom_of_isAbsolute (he.base b (Option.mem_toList.1 hb)).1
  rw [Settings.ofArguments_emit he.takesInput.complete he.header.1 he.header.2 he.target.2
    fun b hb => (he.base b hb).2]
  simp only [Settings.absolute, he.takesInput.inputs, List.nil_append, List.map_append, hbases,
    List.map_cons, List.map_nil, Option.map_some,
    Path.normalizeFrom_of_isAbsolute he.header.1, Path.normalizeFrom_of_isAbsolute he.target.1]

theorem search_eq (he : IsEmitCall arguments directory header target base) :
    search (Task.arguments arguments (.emit header target base)) directory =
      search arguments directory := by
  rw [search, he.absolute_eq]
  rfl

theorem roots_eq (he : IsEmitCall arguments directory header target base) (source : Bytes) :
    roots (Task.arguments arguments (.emit header target base)) directory header.normalize source =
      roots arguments directory header.normalize source := by
  rw [roots, Settings.ofArguments_emit he.takesInput.complete he.header.1 he.header.2
    he.target.2 fun b hb => (he.base b hb).2]
  rfl

/-- The scan of an emission walks over the header file, on top of the precompiled headers that the
    arguments name and the one of the task. -/
theorem run_eq_ok (he : IsEmitCall arguments directory header target base)
    (h : run tree ⟨compiler, Task.arguments arguments (.emit header target base), directory⟩ [] =
      .ok scan) :
    ∃ source own front, tree.read header.normalize = .ok source ∧
      baseEntries tree ((Settings.ofArguments arguments).absolute directory).bases = .ok own ∧
      baseEntries tree (base.toList.map Path.normalize) = .ok front ∧
      scan.base = own ++ front ∧
      scan.events = Include.walk (search arguments directory) tree
        (visitedBefore tree directory [] (own ++ front) header.normalize)
        (roots arguments directory header.normalize source) := by
  obtain ⟨unit, source, entries, hinput, hsource, hentries, rfl⟩ := Scan.run_eq_ok h
  rw [he.absolute_eq] at hinput hentries
  cases hinput
  obtain ⟨own, front, hown, hfront, rfl⟩ := baseEntries_append hentries
  refine ⟨source, own, front, hsource, hown, hfront, rfl, ?_⟩
  simp only [he.search_eq, he.roots_eq]

/-- What an emission writes: what is in front, and behind it what was entered. -/
theorem compile_eq_ok (he : IsEmitCall arguments directory header target base)
    (h : compile tree ⟨compiler, Task.arguments arguments (.emit header target base), directory⟩ =
      (.ok (), tree')) :
    ∃ scan bytes,
      run tree ⟨compiler, Task.arguments arguments (.emit header target base), directory⟩ [] =
        .ok scan ∧
      Snapshot.encode? ⟨scan.base ++ scan.entries⟩ = some bytes ∧
      tree.write target.normalize bytes = .ok tree' := by
  obtain ⟨scan, hrun, -, hemits, -⟩ := Scan.compile_eq_ok h
  obtain ⟨unit, source, entries, -, -, -, rfl⟩ := Scan.run_eq_ok hrun
  rw [he.absolute_eq] at hemits
  obtain ⟨output, bytes, houtput, hbytes, hwrite⟩ := hemits rfl
  cases houtput
  exact ⟨_, bytes, hrun, hbytes, hwrite⟩

end IsEmitCall

/-- Whether a header file can be compiled with some arguments, on top of a precompiled header if
    there is one: the paths are absolute and text, and the arguments force no other includes. -/
structure IsEmission (arguments : List String) (directory header target : Path)
    (base : Option Path) : Prop where
  directory : directory.isAbsolute = true
  bare : Settings.IsBare arguments
  header : header.isAbsolute = true ∧ header.IsText
  target : target.isAbsolute = true ∧ target.IsText
  base : ∀ b ∈ base, b.isAbsolute = true ∧ b.IsText

namespace IsEmission

theorem isEmitCall (he : IsEmission arguments directory header target base) :
    IsEmitCall arguments directory header target base :=
  ⟨he.directory, he.bare.openEnded.takesInput, he.header, he.target, he.base⟩

/-- What the arguments of an emission say. -/
theorem absolute_eq (he : IsEmission arguments directory header target base) :
    (Settings.ofArguments (Task.arguments arguments (.emit header target base))).absolute directory =
      { (Settings.ofArguments arguments).absolute directory with
        bases := base.toList.map Path.normalize
        output := some target.normalize
        emits := true
        inputs := [header.normalize] } := by
  have hnone : ((Settings.ofArguments arguments).absolute directory).bases = [] := by
    rw [Settings.absolute, he.bare.openEnded.bases]
    rfl
  rw [he.isEmitCall.absolute_eq, hnone]
  rfl

theorem search_eq (he : IsEmission arguments directory header target base) :
    search (Task.arguments arguments (.emit header target base)) directory =
      search arguments directory := he.isEmitCall.search_eq

theorem roots_eq (he : IsEmission arguments directory header target base) (source : Bytes) :
    roots (Task.arguments arguments (.emit header target base)) directory header.normalize source =
      Include.ofFile header.normalize source := by
  rw [he.isEmitCall.roots_eq, roots, forcedIncludes, he.bare.unforced]
  rfl

/-- What an emitting task reads and writes. -/
theorem compile_eq_ok (he : IsEmission arguments directory header target base)
    (h : compile tree ⟨compiler, Task.arguments arguments (.emit header target base), directory⟩ =
      (.ok (), tree')) :
    ∃ source entries new bytes, tree.read header.normalize = .ok source ∧
      baseEntries tree (base.toList.map Path.normalize) = .ok entries ∧
      new.map SnapshotEntry.path = Include.headers (Include.walk (search arguments directory) tree
        (visitedBefore tree directory [] entries header.normalize)
        (Include.ofFile header.normalize source)) ∧
      Snapshot.encode? ⟨entries ++ new⟩ = some bytes ∧
      tree.write target.normalize bytes = .ok tree' := by
  obtain ⟨scan, bytes, hrun, hbytes, hwrite⟩ := he.isEmitCall.compile_eq_ok h
  obtain ⟨unit, source, entries, hinput, hsource, hentries, rfl⟩ := run_eq_ok hrun
  -- The header file is the only input, and the precompiled header the only one in front.
  rw [he.absolute_eq] at hinput hentries
  cases hinput
  refine ⟨source, entries, _, bytes, hsource, hentries, ?_, hbytes, hwrite⟩
  rw [map_path_entries, he.search_eq, he.roots_eq]

/-- The scan of an emission, if the header file and what is in front can be read. -/
theorem run_of_read (he : IsEmission arguments directory header target base) {source : Bytes}
    (hsource : tree.read header.normalize = .ok source)
    (hentries : baseEntries tree (base.toList.map Path.normalize) = .ok entries) :
    run tree ⟨compiler, Task.arguments arguments (.emit header target base), directory⟩ [] =
      .ok ⟨{ (Settings.ofArguments arguments).absolute directory with
          bases := base.toList.map Path.normalize
          output := some target.normalize
          emits := true
          inputs := [header.normalize] }, entries,
        Include.walk (search arguments directory) tree
          (visitedBefore tree directory [] entries header.normalize)
          (Include.ofFile header.normalize source)⟩ := by
  have habsolute := he.absolute_eq
  have hhead : ((Settings.ofArguments (Task.arguments arguments
      (.emit header target base))).absolute directory).inputs.head? = some header.normalize := by
    rw [habsolute]
    rfl
  have hbases : baseEntries tree ((Settings.ofArguments (Task.arguments arguments
      (.emit header target base))).absolute directory).bases = .ok entries := by
    rw [habsolute]
    exact hentries
  rw [run_of_head? hhead hsource hbases, habsolute, he.search_eq, he.roots_eq]

/-- An emission succeeds if the header file and what is in front can be read, all includes lead to
    files, and the snapshot can be written. -/
theorem compile_of_walk (he : IsEmission arguments directory header target base)
    {source bytes : Bytes} {new : List SnapshotEntry} {events : List Event}
    (hsource : tree.read header.normalize = .ok source)
    (hentries : baseEntries tree (base.toList.map Path.normalize) = .ok entries)
    (hevents : Include.walk (search arguments directory) tree
      (visitedBefore tree directory [] entries header.normalize)
      (Include.ofFile header.normalize source) = events)
    (hmissing : Include.missing events = [])
    (hnew : ∀ settings, Scan.entries ⟨settings, entries, events⟩ = new)
    (hbytes : Snapshot.encode? ⟨entries ++ new⟩ = some bytes)
    (hwrite : tree.write target.normalize bytes = .ok tree') :
    compile tree ⟨compiler, Task.arguments arguments (.emit header target base), directory⟩ =
      (.ok (), tree') := by
  refine compile_of_run (he.run_of_read hsource hentries) ?_ rfl rfl ?_ hwrite
  · rw [unresolved_eq, hevents, hmissing]
    rfl
  · rw [hevents, hnew]
    exact hbytes

end IsEmission

/-! ### Layers -/

variable {new : List SnapshotEntry} {paths : List Path} {wanted : Path → Prop}

/-- In a tree without links, what counts as visited are the header file and the headers in front. -/
theorem visitedBefore_eq (htree : tree.IsPlain) (hheader : header.IsNormal)
    (hentries : ∀ e ∈ entries, e.path.IsNormal) :
    visitedBefore tree directory [] entries header =
      header :: entries.map SnapshotEntry.path := by
  have hpaths : entries.map (tree.identity ·.path) = entries.map SnapshotEntry.path :=
    List.map_congr_left fun e he => FileTree.identity_of_isNormal htree (hentries e he)
  rw [visitedBefore, hpaths, FileTree.identity_of_isNormal htree hheader]
  exact List.append_nil _

/-- Whether what is wanted are files that can be listed, and with a file all that it includes,
    besides the headers in front. -/
structure IsClosed (search : Search) (tree : FileTree) (entries : List SnapshotEntry)
    (wanted : Path → Prop) : Prop where
  isNormal : ∀ q, wanted q → q.IsNormal
  isListable : ∀ q, wanted q → q.IsListable
  isFile : ∀ q, wanted q → tree.isFile q = true
  includes : ∀ q, wanted q → ∀ i ∈ tree.includes q, ∀ r, i.target? search tree = some r →
    r ∉ entries.map SnapshotEntry.path → wanted r

/-- What a header file includes that lists headers. -/
def listingIncludes (header : Path) (paths : List Path) : List Include :=
  paths.map fun p => ⟨header, header.parent?.getD Path.root, ⟨.angled, p.display.toList⟩⟩

/-- A header that is wanted is a file, and so the target of the directive that lists it. -/
theorem IsClosed.target?_listed {search : Search} {written : Location → Prop} {p : Path}
    (h : IsClosed search tree entries wanted) (hsound : tree.IsSound)
    (hevolves : FileTree.Evolves written tree tree') (header : Path) (hp : wanted p) :
    Include.target? search tree'
      ⟨header, header.parent?.getD Path.root, ⟨.angled, p.display.toList⟩⟩ = some p := by
  have hfile : tree'.isFile p = true := hevolves.isFile hsound (h.isNormal p hp) (h.isFile p hp)
  rw [Include.target?_listed (h.isNormal p hp) (h.isListable p hp).isText, if_pos hfile]

/-- The walk over a header file that lists headers comes to what is reached from these. -/
theorem mem_walk_listing_iff {search : Search} (htree : tree.IsPlain) (hs : search.IsAbsolute)
    (hheader : header.IsNormal) (hentries : ∀ e ∈ entries, e.path.IsNormal)
    (hpaths : ∀ p ∈ paths, p.IsNormal ∧ p.IsListable) (p : Path) :
    p ∈ Include.headers (Include.walk search tree (visitedBefore tree directory [] entries header)
        (Include.ofFile header
          (Utf8.encode (String.join (paths.map Generator.includeLine)).toList))) ↔
      Reaches search tree (· ∈ header :: entries.map SnapshotEntry.path) (listingIncludes header paths) p := by
  rw [visitedBefore_eq htree hheader hentries, Include.ofFile_listing hpaths]
  refine mem_walk_iff hs htree fun i hi => ?_
  obtain ⟨p, -, rfl⟩ := List.mem_map.1 hi
  exact Path.isAbsolute_parent hheader.isAbsolute

/-- The walk over a header file that lists headers, in a tree to which the header file came. -/
theorem isLayer_of_walk {search : Search} (hsound : tree.IsSound) (hs : search.IsAbsolute)
    (hheader : header.IsNormal) (hevolves : FileTree.Evolves (· = header.location) tree tree')
    (hentries : ∀ e ∈ entries, e.path.IsNormal) (hclosed : IsClosed search tree entries wanted)
    (hpaths : ∀ p ∈ paths, wanted p) (hapart : ∀ q, wanted q → q.location ≠ header.location)
    (hnew : new.map SnapshotEntry.path = Include.headers (Include.walk search tree'
      (visitedBefore tree' directory [] entries header)
      (Include.ofFile header
        (Utf8.encode (String.join (paths.map Generator.includeLine)).toList)))) :
    Snapshot.IsLayer entries new paths wanted := by
  have hmem (p : Path) : p ∈ new.map SnapshotEntry.path ↔ Reaches search tree'
      (· ∈ header :: entries.map SnapshotEntry.path) (listingIncludes header paths) p := by
    rw [hnew]
    exact mem_walk_listing_iff (hevolves.isSound hsound).isPlain hs hheader hentries
      (fun q hq => ⟨hclosed.isNormal q (hpaths q hq), hclosed.isListable q (hpaths q hq)⟩) p
  refine ⟨?_, fun e he hin => ?_, fun e he => ?_, fun p hp => ?_⟩
  · rw [hnew]
    exact (Include.pairwise_identity_walk _ _ _ _).imp fun hne heq => hne (congrArg _ heq)
  · exact ((hmem e.path).1 (List.mem_map_of_mem he)).not_avoid (List.mem_cons_of_mem _ hin)
  · refine ((hmem e.path).1 (List.mem_map_of_mem he)).of_evolves wanted hevolves hsound hs
      (fun q hq => ⟨hclosed.isNormal q hq, hapart q hq⟩) (fun q hq hwritten => ?_)
      (fun i hi q hq _ => ?_) fun q hq i hi r hr hnot =>
        hclosed.includes q hq i hi r hr fun hin => hnot (List.mem_cons_of_mem _ hin)
    · -- The only file that was written is the header file itself.
      rw [hq.eq_of_location_eq hheader hwritten]
      exact List.mem_cons_self
    · obtain ⟨p, hp, rfl⟩ := List.mem_map.1 hi
      cases (hclosed.target?_listed hsound hevolves header (hpaths p hp)).symm.trans hq
      exact hpaths _ hp
  · rw [List.map_append, List.mem_append]
    by_cases hin : p ∈ entries.map SnapshotEntry.path
    · exact .inl hin
    have htarget := hclosed.target?_listed hsound hevolves header (hpaths p hp)
    refine .inr ((hmem p).2 (.start (List.mem_map_of_mem hp) htarget ?_))
    have hne : p ≠ header := fun heq => hapart p (hpaths p hp) (heq ▸ rfl)
    simp [hne, hin]

end Scan

end PrecompiledHeaders
