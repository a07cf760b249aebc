import PrecompiledHeaders.FileTree.System
import PrecompiledHeaders.Proofs.FileTree.Identity
import PrecompiledHeaders.Proofs.Frontend.Scan
import PrecompiledHeaders.Proofs.Include.Depth
import PrecompiledHeaders.Proofs.Include.Listing

/-!
# Scans come to an end

`Scan.runNested` scans the input of an invocation as a compiler would go about it: headers stay
open while their includes are followed. Of such a scan one has to show that it ends. In a tree with
cycles of includes, and with links to directories further up, there is no end of ways to spell the
path of a header that could be opened, but with as many open headers as there are identities of files
the scan is through. It comes to what `Scan.run` says, and no identity has been entered twice
(`Scan.opens_each_file_once`).

Where the location of a header is found, its identity tells which file it is, so that such a file is
opened once. That is so for all files of a tree that is not deep. But a file that stands too deep
for its location to be found has an identity for each of its paths, so a scan opens it once for each path
that it comes along (`Scan.deep_file_is_opened_again`).
-/

namespace PrecompiledHeaders.Scan

/-- Scans the input of an invocation with at most the given number of headers open at once; none
    comes out if there would be more. -/
def runNested (depth : Nat) (tree : FileTree) (invocation : Invocation) (excluded : List Path) :
    Option (Except FrontendError Scan) :=
  let directory := invocation.directory
  let settings := (Settings.ofArguments invocation.arguments).absolute directory
  match settings.inputs with
  | [] => some (.error .missingInput)
  | input :: _ =>
    match tree.read input with
    | .error e => some (.error (.unreadableInput input e))
    | .ok source =>
      match baseEntries tree settings.bases with
      | .error e => some (.error e)
      | .ok base => do
        let visited := tree.identity input :: base.map (tree.identity ·.path) ++
          excluded.map fun p => tree.identity (directory.normalizeFrom p)
        let includes := forcedIncludes settings directory input ++ Include.ofFile input source
        let progress ← Include.follow (.ofSettings settings) tree depth ⟨visited, []⟩ includes
        return .ok ⟨settings, base, progress.events⟩

/-- The headers that a scan has opened of which the location is found. -/
def found (tree : FileTree) (scan : Scan) : List Path :=
  (scan.entries.map SnapshotEntry.path).filter fun p => (tree.canonical p).isOk

/-- Whether all that a scan has opened are files, no identity is there twice, and the input is not
    among them; and whether those of which the location is found are different files of the tree. -/
structure OpensOnce (tree : FileTree) (scan : Scan) : Prop where
  isFile : ∀ entry ∈ scan.entries, tree.isFile entry.path
  distinct : scan.entries.Pairwise fun entry other =>
    tree.identity entry.path ≠ tree.identity other.path
  ne_input : ∃ input, scan.settings.inputs.head? = some input ∧
    ∀ entry ∈ scan.entries, tree.identity entry.path ≠ tree.identity input
  apart : (scan.found tree).Pairwise fun p q => tree.locate p ≠ tree.locate q
  length_le : (scan.found tree).length ≤ tree.files.card

variable {tree : FileTree} {invocation : Invocation} {excluded : List Path} {scan : Scan}

/-- Where there are no more identities of files than headers may be open, no scan is given up. -/
theorem runNested_eq_run {depth : Nat} (h : tree.fileIdentities.card ≤ depth)
    (invocation : Invocation) (excluded : List Path) :
    runNested depth tree invocation excluded = some (run tree invocation excluded) := by
  have hpending (visited : List Path) : (tree.pending visited).card ≤ depth :=
    (Finset.card_le_card (tree.pending_subset_fileIdentities visited)).trans h
  unfold runNested run
  simp only
  -- Both take the same steps up to the walk.
  cases ((Settings.ofArguments invocation.arguments).absolute invocation.directory).inputs with
  | nil => rfl
  | cons input others =>
    simp only
    cases tree.read input with
    | error e => rfl
    | ok source =>
      simp only
      cases baseEntries tree
          ((Settings.ofArguments invocation.arguments).absolute invocation.directory).bases with
      | error e => rfl
      | ok base =>
        simp only [Include.follow_eq_walk _ tree (hpending _)]
        rfl

theorem opensOnce_of_run (h : run tree invocation excluded = .ok scan) : scan.OpensOnce tree := by
  obtain ⟨input, source, base, hinput, -, -, hscan⟩ := run_eq_ok h
  have hpath : scan.entries.map SnapshotEntry.path = Include.headers scan.events :=
    map_path_entries scan
  have hwalk : ∀ entry ∈ scan.entries, entry.path ∈ Include.headers scan.events :=
    fun _ hentry => hpath ▸ List.mem_map_of_mem hentry
  have hdistinct : (Include.headers scan.events).Pairwise fun p q =>
      tree.identity p ≠ tree.identity q := hscan ▸ Include.pairwise_identity_walk _ _ _ _
  have hisFile : ∀ p ∈ Include.headers scan.events, tree.isFile p :=
    fun _ hp => (Reaches.of_mem_walk (hscan ▸ hp)).isFile
  have hfound : (scan.found tree).Pairwise fun p q => tree.identity p ≠ tree.identity q := by
    rw [found, hpath]
    exact hdistinct.filter _
  have hfoundFile : ∀ p ∈ scan.found tree, tree.isFile p = true := fun p hp =>
    hisFile p (hpath ▸ List.mem_of_mem_filter hp)
  have hfoundOk : ∀ p ∈ scan.found tree, (tree.canonical p).isOk = true := fun p hp =>
    (List.mem_filter.1 hp).2
  refine ⟨fun entry hentry => hisFile _ (hwalk entry hentry), ?_, ⟨input, ?_, ?_⟩, ?_,
    FileTree.length_le_card_files hfoundFile hfoundOk hfound⟩
  · rwa [← hpath, List.pairwise_map] at hdistinct
  · rw [hscan, hinput]
  · -- The input counts as visited from the start.
    intro entry hentry heq
    have hnot : tree.identity entry.path ∉
        visitedBefore tree invocation.directory excluded base input :=
      Include.not_visited_of_mem_walk (hscan ▸ hwalk entry hentry)
    exact hnot (heq ▸ List.mem_cons_self)
  · refine hfound.imp_of_mem fun {p q} hp hq hne heq => hne ?_
    obtain ⟨location, -, hlocate, hp⟩ :=
      FileTree.exists_mem_files (hfoundFile p hp) (hfoundOk p hp)
    obtain ⟨location', -, hlocate', hq⟩ :=
      FileTree.exists_mem_files (hfoundFile q hq) (hfoundOk q hq)
    cases hlocate.symm.trans (heq.trans hlocate')
    rw [hp, hq]

/-- In a tree that is not deep, the locations of all headers are found. -/
theorem found_of_isShallow (h : tree.IsShallow) (hscan : scan.OpensOnce tree) :
    scan.found tree = scan.entries.map SnapshotEntry.path := by
  refine List.filter_eq_self.2 fun p hp => ?_
  obtain ⟨entry, hentry, rfl⟩ := List.mem_map.1 hp
  exact h.canonical_isOk (hscan.isFile entry hentry)

/-- **Each file is opened once.** A scan comes to an end: at no time are more headers open than there
    are identities of files, and no identity is entered twice. In a tree that is not deep, at no time
    are more headers open than the tree has files, and no file is opened twice. -/
theorem opens_each_file_once (tree : FileTree) (invocation : Invocation) (excluded : List Path) :
    runNested tree.fileIdentities.card tree invocation excluded =
        some (run tree invocation excluded) ∧
      (∀ scan, run tree invocation excluded = .ok scan → scan.OpensOnce tree) ∧
      (tree.IsShallow →
        runNested tree.files.card tree invocation excluded = some (run tree invocation excluded) ∧
        ∀ scan, run tree invocation excluded = .ok scan →
          scan.entries.length ≤ tree.files.card ∧
          scan.entries.Pairwise fun entry other =>
            tree.locate entry.path ≠ tree.locate other.path) := by
  refine ⟨runNested_eq_run le_rfl invocation excluded, fun _ => opensOnce_of_run, fun h =>
    ⟨runNested_eq_run h.card_fileIdentities_le invocation excluded, fun scan hrun => ?_⟩⟩
  have hscan := opensOnce_of_run hrun
  have hfound := found_of_isShallow h hscan
  have hlength := hscan.length_le
  have hapart := hscan.apart
  rw [hfound, List.length_map] at hlength
  rw [hfound, List.pairwise_map] at hapart
  exact ⟨hlength, hapart⟩

/-! ### Links that lead back -/

/-- A directory with a link to itself, and a header in it that includes itself over the link. -/
def loopTree : FileTree where
  entries := [
    ([(Path.ofString "loop").bytes], .link .root),
    ([(Path.ofString "a.h").bytes], .file (Utf8.encode "#include \"loop/a.h\"".toList)),
    ([(Path.ofString "a.cpp").bytes], .file
      (Utf8.encode "#include \"loop/loop/a.h\"\n#include \"a.h\"".toList))]
  here := []

example : ((runNested 1 loopTree ⟨"clang++", ["a.cpp"], .root⟩ []).map fun outcome =>
    (outcome.map fun scan => scan.entries.map SnapshotEntry.path).toOption) =
      some (some [.ofString "/loop/loop/a.h"]) := by
  decide +kernel

theorem run_loopTree : run loopTree ⟨"clang++", ["a.cpp"], .root⟩ [] =
    .ok ⟨(Settings.ofArguments ["a.cpp"]).absolute .root, [],
      [.entered (.ofString "/loop/loop/a.h") (Utf8.encode "#include \"loop/a.h\"".toList)]⟩ := by
  have hinput : ((Settings.ofArguments ["a.cpp"]).absolute .root).inputs.head? =
      some (.ofString "/a.cpp") := by decide +kernel
  have hsource : loopTree.read (.ofString "/a.cpp") =
      .ok (Utf8.encode "#include \"loop/loop/a.h\"\n#include \"a.h\"".toList) := by decide +kernel
  have hwithin : Include.walkWithin (search ["a.cpp"] .root) loopTree 3
      (visitedBefore loopTree .root [] [] (.ofString "/a.cpp"))
      (roots ["a.cpp"] .root (.ofString "/a.cpp")
        (Utf8.encode "#include \"loop/loop/a.h\"\n#include \"a.h\"".toList)) =
      some [.entered (.ofString "/loop/loop/a.h")
        (Utf8.encode "#include \"loop/a.h\"".toList)] := by decide +kernel
  exact run_of_walkWithin hinput hsource rfl hwithin

theorem opens_each_file_once_loopTree : loopTree.IsShallow ∧
    ∃ scan, run loopTree ⟨"clang++", ["a.cpp"], .root⟩ [] = .ok scan ∧ scan.OpensOnce loopTree ∧
      scan.entries.length ≤ loopTree.files.card ∧
      runNested loopTree.files.card loopTree ⟨"clang++", ["a.cpp"], .root⟩ [] = some (.ok scan) := by
  have hshallow : loopTree.IsShallow := FileTree.isShallow_of_entries (by decide +kernel)
  obtain ⟨-, honce, hdone⟩ := opens_each_file_once loopTree ⟨"clang++", ["a.cpp"], .root⟩ []
  obtain ⟨hnested, hfew⟩ := hdone hshallow
  exact ⟨hshallow, _, run_loopTree, honce _ run_loopTree, (hfew _ run_loopTree).1,
    hnested.trans (congrArg some run_loopTree)⟩

/-! ### A file that stands too deep -/

/-- A name that is as long as one may be. -/
def longName (letter : UInt8) : Bytes := List.replicate 255 letter

/-- Directories in one another, with long names. -/
def nestedDirectories : Nat → Location
  | 0 => []
  | depth + 1 => longName (97 + UInt8.ofNat depth) :: nestedDirectories depth

/-- The name of the header. -/
def deepName : Bytes := (Path.ofString "x.h").bytes

/-- A header that stands so deep that the path of its location is too long. -/
def deepHeader : Location := deepName :: nestedDirectories 16

/-- The names of the links to the directory of the header. -/
def deepLinks : List Bytes := [(Path.ofString "m").bytes, (Path.ofString "n").bytes,
  (Path.ofString "o").bytes]

/-- The paths of the header over the links: `/m/x.h`, `/n/x.h` and `/o/x.h`. -/
def deepPaths : List Path := deepLinks.map fun name => Location.path [deepName, name]

/-- A unit that includes the header over all links. -/
def deepSource : Bytes :=
  (Path.ofString "#include \"m/x.h\"\n#include \"n/x.h\"\n#include \"o/x.h\"\n").bytes

/-- Where the links point to. No link can name the directory of the header in full, so they go over
    another one, which points to the directory above. -/
def lastDirectory : Path := (Path.ofString "l").join ⟨longName (97 + 15)⟩

/-- The unit, the header in its directories, and the links. -/
def deepTree : FileTree where
  entries :=
    (List.range 16).map (fun depth => (nestedDirectories (depth + 1), .directory)) ++
      deepLinks.map (fun name => ([name], .link lastDirectory)) ++ [
      (deepHeader, .file []),
      (FileTree.locationOf ["l"], .link (nestedDirectories 15).path),
      (FileTree.locationOf ["main.cpp"], .file deepSource)]
  here := []

theorem entryAt_deepHeader : deepTree.entryAt deepHeader = some (.file []) := by
  decide +kernel

/-- The header stands in directories. -/
theorem isReal_deepHeader : deepTree.IsReal deepHeader := by
  have hdirectory : ∀ depth < 17, deepTree.entryAt (nestedDirectories depth) = some .directory := by
    decide +kernel
  have hname : ∀ depth < 16, Path.IsName (longName (97 + UInt8.ofNat depth)) := by decide +kernel
  have hnested : ∀ depth ≤ 16, deepTree.IsReal (nestedDirectories depth) := by
    intro depth h
    induction depth with
    | zero => exact .root
    | succ depth ih =>
      exact .entry (ih (Nat.le_of_succ_le h)) (hdirectory depth (Nat.lt_succ_of_lt h))
        (hname depth h) (Nat.le_of_eq List.length_replicate) (hdirectory _ (Nat.lt_succ_of_le h)) nofun
  exact .entry (hnested 16 le_rfl) (hdirectory 16 (by decide)) (by decide) (by decide)
    entryAt_deepHeader nofun

/-- All links lead to the header. -/
theorem trace_deepPaths : ∀ p ∈ deepPaths, p.isAbsolute = true ∧ p.normalize = p ∧
    p.bytes.length < FileTree.pathLimit ∧ deepTree.trace true p = .ok (.taken deepHeader) := by
  have hlinks : ∀ name ∈ deepLinks, Path.IsName name ∧ name.length ≤ FileTree.nameLimit ∧
      (Location.path [deepName, name]).bytes.contains 0 = false ∧
      (Location.path [deepName, name]).bytes.length < FileTree.pathLimit ∧
      deepTree.entryAt [name] = some (.link lastDirectory) := by decide +kernel
  have hfront : lastDirectory.segments = [(Path.ofString "l").bytes, longName (97 + 15)] := by
    decide +kernel
  have hlink : deepTree.entryAt [(Path.ofString "l").bytes] =
      some (.link (nestedDirectories 15).path) := by decide +kernel
  have habove : (nestedDirectories 15).path.segments = [] :: (nestedDirectories 15).reverse :=
    Location.segments_path isReal_deepHeader.tail.tail.isProper (List.cons_ne_nil _ _)
  have hnames : deepHeader.reverse =
      (nestedDirectories 15).reverse ++ [longName (97 + 15), deepName] := by
    rw [deepHeader, nestedDirectories, List.reverse_cons, List.reverse_cons, List.append_assoc]
    rfl
  refine List.forall_mem_map.2 fun name hmem => ?_
  obtain ⟨hname, hlength, hzero, hshort, hentry⟩ := hlinks name hmem
  have hproper : Location.IsProper [deepName, name] :=
    List.forall_mem_cons.2 ⟨by decide, List.forall_mem_singleton.2 hname⟩
  have habsolute := Location.isAbsolute_path [deepName, name]
  have hsegments : (Location.path [deepName, name]).segments = [[], name, deepName] :=
    Location.segments_path hproper (List.cons_ne_nil _ _)
  refine ⟨habsolute, Location.normalize_path hproper, hshort,
    FileTree.trace_eq_ok_iff.2 ⟨hzero, nofun, ?_⟩⟩
  rw [FileTree.origin, if_pos habsolute, hsegments]
  -- The way goes over two links, and then along the directories.
  refine .stay rfl (.inl rfl) (.jump (.of_isName rfl hname hlength) hentry (fun _ => rfl) ?_)
  rw [FileTree.origin_nil, hfront]
  refine .jump (.of_isName rfl (by decide) (by decide)) hlink (fun _ => rfl) ?_
  rw [FileTree.origin_nil, habove]
  refine .stay rfl (.inl rfl) ?_
  have hgoes := (isReal_deepHeader.goes_reverse_iff []).2 (.here 38 deepHeader)
  rwa [List.append_nil, hnames] at hgoes

theorem locate_deepPaths : ∀ p ∈ deepPaths, deepTree.locate p = .ok deepHeader := by
  intro p hp
  obtain ⟨-, -, hshort, htrace⟩ := trace_deepPaths p hp
  exact FileTree.locate_eq_ok_iff.2 (FileTree.place_eq_ok_iff.2
    ⟨(FileTree.trace_eq_ok_iff.1 htrace).1, hshort, htrace⟩)

theorem find?_deepPaths : ∀ p ∈ deepPaths, deepTree.find? p = some (.file []) := fun p hp =>
  FileTree.find?_eq_some.2 ⟨_, locate_deepPaths p hp, entryAt_deepHeader⟩

/-- The location of the header is not found, so its paths have different identities. -/
theorem identity_deepPaths : ∀ p ∈ deepPaths, deepTree.identity p = p := by
  have hdeep : ¬Location.IsShort deepHeader := by
    rw [Location.IsShort]
    decide +kernel
  intro p hp
  obtain ⟨habsolute, hnormal, -, htrace⟩ := trace_deepPaths p hp
  exact (FileTree.identity_of_deep habsolute htrace hdeep).trans hnormal

/-- The scan opens the header once for each path. -/
theorem run_deepTree : run deepTree ⟨"clang++", ["/main.cpp"], .root⟩ [] =
    .ok ⟨(Settings.ofArguments ["/main.cpp"]).absolute .root, [],
      deepPaths.map fun p => .entered p []⟩ := by
  have hinput : ((Settings.ofArguments ["/main.cpp"]).absolute .root).inputs.head? =
      some (.ofString "/main.cpp") := by decide +kernel
  have hsource : deepTree.read (.ofString "/main.cpp") = .ok deepSource := by decide +kernel
  have hcandidates : (roots ["/main.cpp"] .root (.ofString "/main.cpp") deepSource).map
      (fun i => (search ["/main.cpp"] .root).candidates i.directory i.directive) =
        deepPaths.map fun p => [p] := by decide +kernel
  have hvisited : visitedBefore deepTree .root [] [] (.ofString "/main.cpp") =
      [.ofString "/main.cpp"] := by decide +kernel
  have htarget : (roots ["/main.cpp"] .root (.ofString "/main.cpp") deepSource).map
      (Include.target? (search ["/main.cpp"] .root) deepTree) = deepPaths.map some := by
    have hfind := congrArg (List.map (List.find? deepTree.isFile)) hcandidates
    rw [List.map_map, List.map_map] at hfind
    refine hfind.trans (List.map_congr_left fun p hp => ?_)
    exact List.find?_cons_of_pos (FileTree.isFile_of_find? (find?_deepPaths p hp))
  have hread : ∀ p ∈ deepPaths, (deepTree.read p).toOption.getD [] = [] := fun p hp =>
    congrArg (·.toOption.getD []) (FileTree.read_of_find? (find?_deepPaths p hp))
  have hleaf : ∀ p ∈ deepPaths, deepTree.includes p = [] := fun p hp => by
    rw [FileTree.includes, hread p hp, Include.ofFile_nil]
  have hdistinct : (deepPaths.map deepTree.identity).Nodup := by
    rw [List.map_congr_left identity_deepPaths, List.map_id']
    decide
  have hnew : ∀ p ∈ deepPaths, deepTree.identity p ∉ [.ofString "/main.cpp"] := fun p hp => by
    rw [identity_deepPaths p hp]
    revert p
    decide
  rw [run_of_head? hinput hsource rfl, hvisited,
    Include.walk_of_leaves htarget hleaf hdistinct hnew]
  simp only [List.map_congr_left fun p hp => congrArg (Event.entered p) (hread p hp)]

/-- The location of the header is not found, so its paths have different identities, and it is opened
    once for each of them. -/
theorem deep_file_is_opened_again : ∃ scan,
    run deepTree ⟨"clang++", ["/main.cpp"], .root⟩ [] = .ok scan ∧
      scan.entries.map SnapshotEntry.path = deepPaths ∧
      (∀ p ∈ deepPaths, deepTree.locate p = .ok deepHeader) ∧
      deepTree.files.card < scan.entries.length := by
  have hfiles : deepTree.files ⊆ {deepHeader, FileTree.locationOf ["main.cpp"]} := by
    have hentries : ∀ e ∈ deepTree.entries, e.2.isFile = true →
        e.1 = deepHeader ∨ e.1 = FileTree.locationOf ["main.cpp"] := by decide +kernel
    intro location hmem
    obtain ⟨entry, hentry, hfile⟩ := FileTree.mem_files_iff.1 hmem
    simpa using hentries _ (FileTree.mem_entries_of_isFile hentry hfile) hfile
  refine ⟨_, run_deepTree, rfl, locate_deepPaths, ?_⟩
  exact Nat.lt_of_le_of_lt ((Finset.card_le_card hfiles).trans Finset.card_le_two) (by decide)

end PrecompiledHeaders.Scan
