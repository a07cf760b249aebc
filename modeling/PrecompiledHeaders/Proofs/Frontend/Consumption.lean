import PrecompiledHeaders.Proofs.Frontend.Preprocess
import PrecompiledHeaders.Proofs.Snapshot.RoundTrip

/-!
# Consuming and excluding

On top of a precompiled header, a unit is told the same about as alone, with the headers of the
precompiled header excluded (`Scan.preprocess_consume`). Both ways the same files count as visited
(`Scan.mem_visitedBefore_append_iff`), and a walk asks for nothing else (`Include.walk_congr`).

The precompiled header is looked for at the normal form of its path. If the path goes over a link
and back up, that need not be where it leads (`Scan.detour_is_not_taken`).
-/

namespace PrecompiledHeaders.Scan

variable {tree : FileTree} {arguments : List String} {directory unit base p : Path}
  {bases excluded : List Path} {entries : List SnapshotEntry} {snapshot : Snapshot}

/-- The entries of a precompiled header behind others come behind their entries. -/
theorem baseEntries_concat (h : Snapshot.read tree base = .ok snapshot) (bases : List Path) :
    baseEntries tree (bases ++ [base]) =
      (baseEntries tree bases).map (· ++ snapshot.entries) := by
  have hlast : baseEntries tree [base] = .ok snapshot.entries := by
    rw [baseEntries, h]
    exact congrArg Except.ok (List.append_nil _)
  rw [baseEntries_append_eq, hlast]
  cases baseEntries tree bases <;> rfl

/-- Headers count as visited, whether a precompiled header holds them or they are excluded. -/
theorem mem_visitedBefore_append_iff (h : ∀ q ∈ snapshot.paths, q.IsNormal) :
    p ∈ visitedBefore tree directory excluded (entries ++ snapshot.entries) unit ↔
      p ∈ visitedBefore tree directory (excluded ++ snapshot.paths) entries unit := by
  have hpaths : (snapshot.paths.map fun q => tree.identity (directory.normalizeFrom q)) =
      snapshot.entries.map (tree.identity ·.path) := by
    rw [Snapshot.paths, List.map_map]
    refine List.map_congr_left fun entry hentry => ?_
    rw [Function.comp_apply, (h _ (List.mem_map_of_mem hentry)).normalizeFrom_eq]
  simp only [visitedBefore, List.map_append, hpaths, List.mem_append, List.mem_cons]
  tauto

/-- What a scan tells about the input of any arguments, if there is one, it can be read, and so can
    the precompiled headers in front of it. -/
theorem preprocess_eq (tree : FileTree) (compiler : String) (arguments : List String)
    (directory : Path) (excluded : List Path) :
    preprocess tree ⟨compiler, arguments, directory⟩ excluded =
      match ((Settings.ofArguments arguments).absolute directory).inputs with
      | [] => .error .missingInput
      | unit :: _ =>
        match tree.read unit with
        | .error e => .error (.unreadableInput unit e)
        | .ok source =>
          (baseEntries tree ((Settings.ofArguments arguments).absolute directory).bases).map
            fun entries =>
              let events := Include.walk (search arguments directory) tree
                (visitedBefore tree directory excluded entries unit)
                (roots arguments directory unit source)
              ⟨Include.headers events, (Include.missing events).map Include.report⟩ := by
  simp only [preprocess, run]
  cases ((Settings.ofArguments arguments).absolute directory).inputs with
  | nil => rfl
  | cons unit others =>
    dsimp only
    cases tree.read unit with
    | error e => rfl
    | ok source =>
      dsimp only
      cases baseEntries tree ((Settings.ofArguments arguments).absolute directory).bases with
      | error e => rfl
      | ok entries =>
        refine congrArg Except.ok ?_
        rw [map_path_entries, unresolved_eq]
        rfl

/-- A precompiled header in front of an input is as good as its headers excluded, if nothing else
    that arguments say is different. -/
theorem preprocess_concat {others : List String}
    (h : (Settings.ofArguments others).absolute directory =
      { (Settings.ofArguments arguments).absolute directory with
        bases := ((Settings.ofArguments arguments).absolute directory).bases ++ [base] })
    (hread : Snapshot.read tree base = .ok snapshot) (hpaths : ∀ q ∈ snapshot.paths, q.IsNormal)
    (compiler : String) (excluded : List Path) :
    preprocess tree ⟨compiler, others, directory⟩ excluded =
      preprocess tree ⟨compiler, arguments, directory⟩ (excluded ++ snapshot.paths) := by
  have hsearch : search others directory = search arguments directory := by
    rw [search, h]
    rfl
  have hroots (input : Path) (source : Bytes) :
      roots others directory input source = roots arguments directory input source := by
    have hforced :
        forcedIncludes ((Settings.ofArguments others).absolute directory) directory input =
          forcedIncludes ((Settings.ofArguments arguments).absolute directory) directory input := by
      rw [h]
      rfl
    exact congrArg (· ++ Include.ofFile input source) hforced
  simp only [preprocess_eq, h, hsearch, hroots, baseEntries_concat hread]
  cases ((Settings.ofArguments arguments).absolute directory).inputs with
  | nil => rfl
  | cons input others =>
    dsimp only
    cases tree.read input with
    | error e => rfl
    | ok source =>
      cases baseEntries tree ((Settings.ofArguments arguments).absolute directory).bases with
      | error e => rfl
      | ok entries =>
        refine congrArg Except.ok ?_
        dsimp only
        rw [Include.walk_congr _ _ _ fun p => mem_visitedBefore_append_iff hpaths]

/-- The settings of a consuming task are those of a preprocessing task, with one precompiled header
    more. -/
theorem absolute_consume (ha : Settings.IsComplete arguments) (hu : unit.isAbsolute)
    (ht : unit.IsText) (hb : base.isAbsolute) (hbt : base.IsText) (directory : Path) :
    (Settings.ofArguments (Task.arguments arguments (.consume base unit))).absolute directory =
      { (Settings.ofArguments (Task.arguments arguments (.preprocess unit))).absolute directory with
        bases := ((Settings.ofArguments (Task.arguments arguments (.preprocess unit))).absolute
          directory).bases ++ [base.normalize] } := by
  rw [Settings.ofArguments_consume ha hu ht hbt, Settings.ofArguments_preprocess ha hu ht]
  simp only [Settings.absolute, List.map_append, List.map_cons, List.map_nil,
    Path.normalizeFrom_of_isAbsolute hb]

/-- **Consuming is excluding.** With a precompiled header in front of a unit, a scan tells the same
    as without it when the headers in it are excluded, or fails in the same way. -/
theorem preprocess_consume (ha : Settings.IsComplete arguments) (hu : unit.isAbsolute)
    (ht : unit.IsText) (hb : base.isAbsolute) (hbt : base.IsText)
    (hread : Snapshot.read tree base.normalize = .ok snapshot)
    (hpaths : ∀ q ∈ snapshot.paths, q.IsNormal) (compiler : String) (directory : Path)
    (excluded : List Path) :
    Frontend.scan.preprocess tree
        ⟨compiler, Task.arguments arguments (.consume base unit), directory⟩ excluded =
      Frontend.scan.preprocess tree
        ⟨compiler, Task.arguments arguments (.preprocess unit), directory⟩
        (excluded ++ snapshot.paths) := by
  have hsettings := absolute_consume ha hu ht hb hbt directory
  have hresult := preprocess_concat hsettings hread hpaths compiler excluded
  exact congrArg (·, tree) hresult

/-! ### A link on the way -/

/-- A snapshot of one header. -/
def heldSnapshot : Snapshot := ⟨[⟨.ofString "/x.h", ⟨0⟩⟩]⟩

/-- The entries of the snapshot in bytes. -/
def heldPayload : Bytes := 1 :: 4 :: Utf8.encode "/x.h".toList ++ [0]

/-- A unit with two headers, the snapshot in a directory, and a link to a directory below that. -/
def detourTree : FileTree where
  entries := [
    ([(Path.ofString "a.cpp").bytes],
      .file (Path.ofString "#include \"x.h\"\n#include \"y.h\"\n").bytes),
    ([(Path.ofString "x.h").bytes], .file []),
    ([(Path.ofString "y.h").bytes], .file []),
    ([(Path.ofString "d").bytes], .directory),
    ([(Path.ofString "s.pch").bytes, (Path.ofString "d").bytes], .file (Snapshot.file heldPayload)),
    ([(Path.ofString "e").bytes, (Path.ofString "d").bytes], .directory),
    ([(Path.ofString "l").bytes], .link (.ofString "d/e"))]
  here := []

theorem decode_heldSnapshot :
    Snapshot.decode (Snapshot.file heldPayload) = .ok heldSnapshot := by
  have hpayload : heldSnapshot.payload? = some heldPayload := by decide +kernel
  exact Snapshot.decode_of_encode? (congrArg (Option.map Snapshot.file) hpayload)

theorem read_detour
    (h : detourTree.locate p = .ok [(Path.ofString "s.pch").bytes, (Path.ofString "d").bytes]) :
    Snapshot.read detourTree p = .ok heldSnapshot := by
  have hfile : detourTree.read p = .ok (Snapshot.file heldPayload) := by
    rw [FileTree.read, h]
    rfl
  rw [Snapshot.read, hfile]
  exact decode_heldSnapshot

theorem isNormal_heldSnapshot : ∀ q ∈ heldSnapshot.paths, q.IsNormal :=
  List.forall_mem_singleton.2 ⟨by decide, by decide⟩

/-- Without the header in the snapshot, the unit includes the other one. -/
theorem preprocess_detour : Frontend.scan.preprocess detourTree
    ⟨"clang++", Task.arguments [] (.preprocess (.ofString "/a.cpp")), .root⟩
    heldSnapshot.paths = (.ok ⟨[.ofString "/y.h"], []⟩, detourTree) := by
  have hwithin : preprocessWithin 4 detourTree [] .root heldSnapshot.paths (.ofString "/a.cpp") =
      some ⟨[.ofString "/y.h"], []⟩ := by decide +kernel
  have hunit : (Path.ofString "/a.cpp").IsNormal := ⟨by decide, by decide⟩
  exact congrArg (·, detourTree) (preprocess_of_preprocessWithin Settings.isOpenEnded_nil hunit
    (Path.isText_ofString _) hwithin)

theorem preprocess_consume_detour :
    Snapshot.read detourTree (Path.ofString "/d/./s.pch").normalize = .ok heldSnapshot ∧
      Frontend.scan.preprocess detourTree
        ⟨"clang++", Task.arguments [] (.consume (.ofString "/d/./s.pch") (.ofString "/a.cpp")),
          .root⟩ [] = (.ok ⟨[.ofString "/y.h"], []⟩, detourTree) := by
  have hread : Snapshot.read detourTree (Path.ofString "/d/./s.pch").normalize =
      .ok heldSnapshot := read_detour (by decide +kernel)
  have hconsume := preprocess_consume Settings.takesInput_nil.complete (by decide)
    (Path.isText_ofString "/a.cpp") (by decide) (Path.isText_ofString "/d/./s.pch") hread
    isNormal_heldSnapshot "clang++" .root []
  exact ⟨hread, hconsume.trans preprocess_detour⟩

/-- The path leads over the link and back up, to the snapshot. But its normal form does not, and
    where that leads, nothing is. -/
theorem detour_is_not_taken :
    Snapshot.read detourTree (.ofString "/l/../s.pch") = .ok heldSnapshot ∧
      (∀ q ∈ heldSnapshot.paths, q.IsNormal) ∧
      Frontend.scan.preprocess detourTree
        ⟨"clang++", Task.arguments [] (.consume (.ofString "/l/../s.pch") (.ofString "/a.cpp")),
          .root⟩ [] =
        (.error (.invalidSnapshot (.ofString "/s.pch") (.unreadable .notFound)), detourTree) ∧
      Frontend.scan.preprocess detourTree
        ⟨"clang++", Task.arguments [] (.preprocess (.ofString "/a.cpp")), .root⟩
        heldSnapshot.paths = (.ok ⟨[.ofString "/y.h"], []⟩, detourTree) := by
  have hconsume : preprocess detourTree
      ⟨"clang++", Task.arguments [] (.consume (.ofString "/l/../s.pch") (.ofString "/a.cpp")),
        .root⟩ [] = .error (.invalidSnapshot (.ofString "/s.pch") (.unreadable .notFound)) := by
    decide +kernel
  exact ⟨read_detour (by decide +kernel), isNormal_heldSnapshot, congrArg (·, detourTree) hconsume,
    preprocess_detour⟩

end PrecompiledHeaders.Scan
