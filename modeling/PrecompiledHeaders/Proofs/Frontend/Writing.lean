import PrecompiledHeaders.Proofs.Compiler.Appending
import PrecompiledHeaders.Proofs.FileTree.Writing
import PrecompiledHeaders.Proofs.Frontend.Emit
import PrecompiledHeaders.Proofs.Snapshot.Files

/-!
# What a compilation writes

A compilation of the scanning frontend writes one file at most, as its last step. All that it can fail
over comes before that or is the writing itself (`Scan.Fails`), and so every other failure leaves all
files alone.

If it succeeds, the file that its output leads to is all that has changed, and only if a precompiled
header was asked for (`Scan.compile_writes_its_output`). What is read from there is a snapshot of the
headers in front, and then of those that preprocessing tells for the same arguments, each as it was
before the compilation (`FileTree.entryOf`). But a special file does not hold what is written to it
(`Scan.null_holds_no_emission`).
-/

namespace PrecompiledHeaders

/-- What a snapshot holds of a header in a tree; one that cannot be read counts as empty. -/
def FileTree.entryOf (tree : FileTree) (header : Path) : SnapshotEntry :=
  ⟨header, .ofBytes ((tree.read header).toOption.getD [])⟩

/-- A walk enters headers with the contents that they have in the tree. -/
theorem Include.filterMap_header?_walk (search : Search) (tree : FileTree) (visited : List Path)
    (includes : List Include) : (walk search tree visited includes).filterMap Event.header? =
      (headers (walk search tree visited includes)).map
        fun p => (p, (tree.read p).toOption.getD []) := by
  induction visited, includes using walk.induct search tree with
  | case1 visited =>
    rw [walk]
    rfl
  | case2 visited next rest hnone ih =>
    rw [walk_of_unresolved hnone]
    exact ih
  | case3 visited next rest path hsome hvisited ih =>
    rw [walk_of_visited hsome hvisited]
    exact ih
  | case4 visited next rest path hsome hvisited contents ih =>
    rw [walk_of_entered hsome hvisited]
    exact congrArg _ ih

namespace Scan

variable {tree after : FileTree} {invocation : Invocation} {scan : Scan} {excluded bases : List Path}
  {entries : List SnapshotEntry} {e : FrontendError}

/-! ### What a scan has found -/

/-- A scan has found entries of its tree. -/
theorem entries_of_run (h : run tree invocation excluded = .ok scan) :
    scan.entries = (Include.headers scan.events).map tree.entryOf := by
  have hentries : scan.entries = (scan.events.filterMap Event.header?).map
      fun header => ⟨header.1, .ofBytes header.2⟩ := by
    rw [List.map_filterMap, entries]
    congr 1
    funext event
    cases event <;> rfl
  obtain ⟨unit, source, base, -, -, -, rfl⟩ := run_eq_ok h
  rw [hentries, Include.filterMap_header?_walk, List.map_map]
  rfl

theorem preprocess_of_run (h : run tree invocation excluded = .ok scan) :
    preprocess tree invocation excluded =
      .ok ⟨Include.headers scan.events, scan.unresolved⟩ := by
  rw [preprocess, h, ← map_path_entries]
  rfl

/-- What is in front is read from each precompiled header there. -/
theorem exists_snapshots_of_baseEntries (h : baseEntries tree bases = .ok entries) :
    ∃ snapshots, List.Forall₂ (fun base snapshot => Snapshot.read tree base = .ok snapshot)
        bases snapshots ∧ entries = snapshots.flatMap Snapshot.entries := by
  induction bases generalizing entries with
  | nil =>
    cases h
    exact ⟨[], .nil, rfl⟩
  | cons base rest ih =>
    rw [baseEntries] at h
    split at h
    · cases h
    next snapshot hsnapshot =>
    cases hrest : baseEntries tree rest with
    | error e =>
      rw [hrest] at h
      cases h
    | ok others =>
      rw [hrest] at h
      cases h
      obtain ⟨snapshots, hall, rfl⟩ := ih hrest
      exact ⟨snapshot :: snapshots, .cons hsnapshot hall, rfl⟩

/-! ### Compilations and their output -/

/-- What a compilation that emits has left behind. -/
structure Leaves (tree after : FileTree) (invocation : Invocation) (output : Path) : Prop where
  goes : ((Settings.ofArguments invocation.arguments).absolute invocation.directory).output =
    some output
  differs : FileTree.DiffersAt output tree after
  holds : (∀ file, tree.find? output ≠ some (.special file)) → ∃ snapshots found,
    List.Forall₂ (fun base snapshot => Snapshot.read tree base = .ok snapshot)
      ((Settings.ofArguments invocation.arguments).absolute invocation.directory).bases snapshots ∧
    Frontend.scan.preprocess tree invocation [] = (.ok found, tree) ∧ found.unresolved = [] ∧
    Snapshot.read after output =
      .ok ⟨snapshots.flatMap Snapshot.entries ++ found.headers.map tree.entryOf⟩

theorem exists_leaves (htree : tree.IsTree) (h : compile tree invocation = (.ok (), after))
    (hemits : (Settings.ofArguments invocation.arguments).emits = true) :
    ∃ output, Leaves tree after invocation output := by
  obtain ⟨scan, hrun, hresolved, hwrites, -⟩ := compile_eq_ok h
  obtain ⟨unit, source, base, -, -, hbase, hscan⟩ := run_eq_ok hrun
  obtain ⟨output, bytes, houtput, hbytes, hwrite⟩ := hwrites (by rw [hscan]; exact hemits)
  refine ⟨output, by rw [← houtput, hscan], FileTree.write_differsAt htree hwrite,
    fun hordinary => ?_⟩
  obtain ⟨snapshots, hall, hfront⟩ := exists_snapshots_of_baseEntries hbase
  have hpreprocess : Frontend.scan.preprocess tree invocation [] =
      (.ok ⟨Include.headers scan.events, scan.unresolved⟩, tree) :=
    congrArg (·, tree) (preprocess_of_run hrun)
  refine ⟨snapshots, _, hall, hpreprocess, hresolved, ?_⟩
  rw [Snapshot.read, FileTree.read_of_write htree hwrite hordinary]
  have hsaid := Snapshot.decode_of_encode? hbytes
  rw [entries_of_run hrun] at hsaid
  rw [← hfront]
  rw [hscan] at hsaid ⊢
  exact hsaid

/-- **A compilation writes its output.** It fails before anything is written, and leaves all files as
    they were, unless the file cannot be written. If the compilation succeeds, it has changed nothing
    but the file that its output leads to, and that only if a precompiled header was asked for. Then the
    file holds a snapshot of the headers in front, followed by those that preprocessing tells, with the
    contents that they had before, if it is a file that holds what is written to it. -/
theorem compile_writes_its_output (htree : tree.IsTree) (invocation : Invocation) :
    (∀ e after, Frontend.scan.compile tree invocation = (.error e, after) →
        Fails tree invocation e ∧ ((∀ p reason, e ≠ .unwritable p reason) → after = tree)) ∧
      ∀ after, Frontend.scan.compile tree invocation = (.ok (), after) →
        (¬Settings.AskToEmit invocation.arguments → after = tree) ∧
        (Settings.AskToEmit invocation.arguments →
          ∃ output, Leaves tree after invocation output) := by
  simp only [Frontend.scan, ← Settings.emits_iff]
  refine ⟨fun e after hcompile => (fails_of_compile hcompile).imp_right fun hsame _ => hsame,
    fun after hcompile => ⟨fun hemits => ?_, exists_leaves htree hcompile⟩⟩
  obtain ⟨scan, hrun, -, -, hkeeps⟩ := compile_eq_ok hcompile
  obtain ⟨unit, source, base, -, -, -, hscan⟩ := run_eq_ok hrun
  refine hkeeps ?_
  rw [hscan]
  exact Bool.eq_false_iff.2 hemits

/-! ### A header that is compiled -/

/-- A header that includes two others, one of which cannot be read; and the device that holds
    nothing. -/
def nested : FileTree where
  entries := [
    (FileTree.locationOf ["a.h"],
      .file (Path.ofString "#include \"x.h\"\n#include \"locked.h\"\n").bytes),
    (FileTree.locationOf ["x.h"], .file [10]),
    (FileTree.locationOf ["locked.h"],
      .special ⟨true, [10], some .permissionDenied, some .permissionDenied⟩),
    (FileTree.locationOf ["dev"], .directory),
    (FileTree.locationOf ["dev", "null"], .special .null)]
  here := []

/-- Arguments that compile the header. -/
def emitTo (output : String) : List String := ["-Xclang", "-emit-pch", "-o", output, "/a.h"]

/-- The headers that are included. -/
def nestedHeaders : List Path := [.ofString "/x.h", .ofString "/locked.h"]

theorem isTree_nested : nested.IsTree := FileTree.isTree_of_entries (by decide +kernel) rfl

theorem askToEmit_emitTo (output : String) : Settings.AskToEmit (emitTo output) :=
  ⟨[], ["-o", output, "/a.h"], rfl, rfl⟩

/-- What cannot be read counts as empty. -/
theorem run_nested {output : String} (h : output ∈ ["a.pch", "/dev/null"]) :
    run nested ⟨"clang++", emitTo output, .root⟩ [] = .ok ⟨(Settings.ofArguments
      (emitTo output)).absolute .root, [],
        [.entered (.ofString "/x.h") [10], .entered (.ofString "/locked.h") []]⟩ := by
  have hsays : ∀ output ∈ ["a.pch", "/dev/null"],
      ((Settings.ofArguments (emitTo output)).absolute .root).inputs.head? =
          some (.ofString "/a.h") ∧
        ((Settings.ofArguments (emitTo output)).absolute .root).bases = [] ∧
        Include.walkWithin (search (emitTo output) .root) nested 3
          (visitedBefore nested .root [] [] (.ofString "/a.h"))
          (roots (emitTo output) .root (.ofString "/a.h")
            (Path.ofString "#include \"x.h\"\n#include \"locked.h\"\n").bytes) =
              some [.entered (.ofString "/x.h") [10], .entered (.ofString "/locked.h") []] := by
    decide +kernel
  obtain ⟨hinput, hbases, hwithin⟩ := hsays output h
  refine run_of_walkWithin hinput (by decide +kernel) ?_ hwithin
  rw [hbases]
  rfl

/-- The compilation succeeds wherever something can be written. -/
theorem compile_nested {output : String} {target : Path} (leads : Bytes → FileTree)
    (h : output ∈ ["a.pch", "/dev/null"])
    (htarget : ((Settings.ofArguments (emitTo output)).absolute .root).output = some target)
    (hwrite : ∀ bytes, nested.write target bytes = .ok (leads bytes)) :
    ∃ bytes, Frontend.scan.compile nested ⟨"clang++", emitTo output, .root⟩ =
      (.ok (), leads bytes) := by
  have hheld : (Snapshot.mk (nestedHeaders.map nested.entryOf)).IsHeld :=
    ⟨by decide, by decide +kernel⟩
  obtain ⟨bytes, hbytes⟩ := (Snapshot.exists_encode?_iff hheld).2 (List.forall_mem_cons.2
    ⟨Path.isText_ofString _, List.forall_mem_singleton.2 (Path.isText_ofString _)⟩)
  have hemits : (Settings.ofArguments (emitTo output)).emits = true :=
    Settings.emits_iff.2 (askToEmit_emitTo output)
  have hentries := entries_of_run (run_nested h)
  exact ⟨bytes, compile_of_run (run_nested h) rfl hemits htarget (hentries ▸ hbytes)
    (hwrite bytes)⟩

theorem compile_writes_its_output_nested : nested.IsTree ∧
    Settings.AskToEmit (emitTo "a.pch") ∧
    nested.read (.ofString "/locked.h") = .error .permissionDenied ∧ ∃ after,
      Frontend.scan.compile nested ⟨"clang++", emitTo "a.pch", .root⟩ = (.ok (), after) ∧
        Snapshot.read after (.ofString "/a.pch") =
          .ok ⟨[⟨.ofString "/x.h", .ofBytes [10]⟩, ⟨.ofString "/locked.h", .ofBytes []⟩]⟩ := by
  have hmem : "a.pch" ∈ ["a.pch", "/dev/null"] := List.mem_cons_self
  have hbases : ((Settings.ofArguments (emitTo "a.pch")).absolute .root).bases = [] := by
    decide +kernel
  have htarget : ((Settings.ofArguments (emitTo "a.pch")).absolute .root).output =
      some (.ofString "/a.pch") := by decide +kernel
  have hfree : nested.find? (.ofString "/a.pch") = none := by decide +kernel
  obtain ⟨bytes, hcompile⟩ := compile_nested
    (fun bytes => nested.set (FileTree.locationOf ["a.pch"]) (.file bytes)) hmem htarget
    fun bytes => by with_unfolding_all rfl
  obtain ⟨-, hdone⟩ := compile_writes_its_output isTree_nested ⟨"clang++", emitTo "a.pch", .root⟩
  obtain ⟨output, hleaves⟩ := (hdone _ hcompile).2 (askToEmit_emitTo "a.pch")
  obtain rfl : output = .ofString "/a.pch" := Option.some.inj (hleaves.goes.symm.trans htarget)
  obtain ⟨snapshots, found, hsnapshots, hfound, -, hread⟩ :=
    hleaves.holds fun file => by simp [hfree]
  rw [hbases] at hsnapshots
  cases hsnapshots
  cases (congrArg Prod.fst hfound).symm.trans (preprocess_of_run (run_nested hmem))
  exact ⟨isTree_nested, askToEmit_emitTo "a.pch", by with_unfolding_all rfl, _, hcompile, hread⟩

/-- What is compiled to the device that holds nothing is lost. -/
theorem null_holds_no_emission : nested.IsTree ∧ Settings.AskToEmit (emitTo "/dev/null") ∧
    ((Settings.ofArguments (emitTo "/dev/null")).absolute .root).output =
      some (.ofString "/dev/null") ∧
    Frontend.scan.compile nested ⟨"clang++", emitTo "/dev/null", .root⟩ = (.ok (), nested) ∧
    Frontend.scan.preprocess nested ⟨"clang++", emitTo "/dev/null", .root⟩ [] =
      (.ok ⟨nestedHeaders, []⟩, nested) ∧
    Snapshot.read nested (.ofString "/dev/null") = .error .truncated := by
  have hmem : "/dev/null" ∈ ["a.pch", "/dev/null"] := by decide
  have htarget : ((Settings.ofArguments (emitTo "/dev/null")).absolute .root).output =
      some (.ofString "/dev/null") := by decide +kernel
  obtain ⟨bytes, hcompile⟩ := compile_nested (fun _ => nested) hmem htarget
    fun bytes => by with_unfolding_all rfl
  exact ⟨isTree_nested, askToEmit_emitTo "/dev/null", htarget, hcompile,
    congrArg (·, nested) (preprocess_of_run (run_nested hmem)), by with_unfolding_all rfl⟩

end Scan

end PrecompiledHeaders
