import PrecompiledHeaders.Frontend.Scan
import PrecompiledHeaders.Proofs.Compiler.Settings
import PrecompiledHeaders.Proofs.Include.Visits
import PrecompiledHeaders.Proofs.Path.Lists

/-!
# What a scan finds

The headers that the scanning frontend lists for a unit of a tree without links are those that are
reached from the unit, or from what its arguments force in front of it, over headers that are not
excluded (`Scan.mem_headers_iff`). The unit itself is not among them.
-/

namespace PrecompiledHeaders.Scan

variable {tree : FileTree} {arguments : List String} {directory unit p : Path} {source : Bytes}

/-- The places that arguments name, for a compiler that runs in a directory. -/
def search (arguments : List String) (directory : Path) : Search :=
  .ofSettings ((Settings.ofArguments arguments).absolute directory)

/-- The includes that the scan of a unit starts from. -/
def roots (arguments : List String) (directory unit : Path) (source : Bytes) : List Include :=
  forcedIncludes (Settings.ofArguments arguments) directory unit ++ Include.ofFile unit source

/-- Whether a unit can be read, and a header is reached from it or from what is forced in front of
    it, over headers that are not to be avoided. -/
def ReachedFrom (tree : FileTree) (arguments : List String) (directory : Path)
    (avoid : Path → Prop) (unit p : Path) : Prop :=
  ∃ source, tree.read unit = .ok source ∧
    Reaches (search arguments directory) tree avoid (roots arguments directory unit source) p

theorem isAbsolute_search (hd : directory.isAbsolute) (arguments : List String) :
    (search arguments directory).IsAbsolute := by
  have hmap (paths : List Path) : ∀ d ∈ paths.map directory.normalizeFrom, d.isAbsolute = true :=
    fun d hmem => (Path.isNormal_of_mem_map hd hmem).isAbsolute
  have hangled : ∀ d ∈ (search arguments directory).angled, d.isAbsolute = true := by
    intro d hmem
    rcases List.mem_append.1 hmem with hmem | hmem
    · exact (List.mem_append.1 hmem).elim (hmap _ d) (hmap _ d)
    · exact hmap _ d hmem
  exact ⟨fun d hmem => (List.mem_append.1 hmem).elim (hmap _ d) (hangled d), hangled⟩

theorem isAbsolute_roots (hd : directory.isAbsolute) (hu : unit.isAbsolute) :
    ∀ i ∈ roots arguments directory unit source, i.directory.isAbsolute = true := by
  intro i hmem
  rcases List.mem_append.1 hmem with hmem | hmem
  · obtain ⟨forced, -, rfl⟩ := List.mem_map.1 hmem
    exact hd
  · exact Include.isAbsolute_ofFile hu hmem

theorem ReachedFrom.isNormal {avoid : Path → Prop}
    (h : ReachedFrom tree arguments directory avoid unit p) (hd : directory.isAbsolute)
    (hu : unit.isAbsolute) : p.IsNormal := by
  obtain ⟨source, -, hreach⟩ := h
  exact hreach.isNormal (isAbsolute_search hd arguments) (isAbsolute_roots hd hu)

/-- Only which normal paths are avoided matters. -/
theorem reachedFrom_congr {avoid avoid' : Path → Prop} (hd : directory.isAbsolute)
    (hu : unit.isAbsolute) (h : ∀ q : Path, q.IsNormal → (avoid q ↔ avoid' q)) :
    ReachedFrom tree arguments directory avoid unit p ↔
      ReachedFrom tree arguments directory avoid' unit p := by
  constructor
  · rintro ⟨source, hr, hreach⟩
    exact ⟨source, hr, hreach.of_avoid (isAbsolute_search hd _) (isAbsolute_roots hd hu)
      fun q hq => (h q hq).2⟩
  · rintro ⟨source, hr, hreach⟩
    exact ⟨source, hr, hreach.of_avoid (isAbsolute_search hd _) (isAbsolute_roots hd hu)
      fun q hq => (h q hq).1⟩

/-- The unit is not entered, and that takes nothing away from what is reached. -/
theorem reaches_unit_iff {avoid : Path → Prop} (hr : tree.read unit = .ok source) :
    Reaches (search arguments directory) tree (fun q => q = unit ∨ avoid q)
        (roots arguments directory unit source) p ↔
      p ≠ unit ∧ Reaches (search arguments directory) tree avoid
        (roots arguments directory unit source) p := by
  have hincludes : tree.includes unit = Include.ofFile unit source := by
    rw [FileTree.includes, hr]
    rfl
  constructor
  · intro h
    exact ⟨fun heq => h.not_avoid (.inl heq), h.mono (fun _ => .inr) fun _ => id⟩
  · rintro ⟨hne, h⟩
    -- A way over the unit goes on with an include of the unit, and these are among the roots.
    refine ((h.cut unit).resolve_left hne).mono (fun _ => id) fun i hmem => ?_
    rw [hincludes] at hmem
    exact (List.mem_append.1 hmem).elim (List.mem_append_right _) id

theorem absolute_preprocess (directory : Path) (ha : Settings.TakesInput arguments)
    (hu : unit.IsNormal) (ht : unit.IsText) :
    (Settings.ofArguments (Task.arguments arguments (.preprocess unit))).absolute directory =
      { (Settings.ofArguments arguments).absolute directory with inputs := [unit] } := by
  rw [Settings.ofArguments_preprocess ha.complete hu.isAbsolute ht]
  simp only [Settings.absolute, ha.inputs, List.nil_append, List.map_cons, List.map_nil,
    hu.normalizeFrom_eq]

theorem search_preprocess (directory : Path) (ha : Settings.TakesInput arguments) (hu : unit.IsNormal)
    (ht : unit.IsText) :
    search (Task.arguments arguments (.preprocess unit)) directory = search arguments directory := by
  rw [search, absolute_preprocess directory ha hu ht]
  rfl

theorem roots_preprocess (directory : Path) (ha : Settings.TakesInput arguments) (hu : unit.IsNormal)
    (ht : unit.IsText) (source : Bytes) :
    roots (Task.arguments arguments (.preprocess unit)) directory unit source =
      roots arguments directory unit source := by
  rw [roots, Settings.ofArguments_preprocess ha.complete hu.isAbsolute ht]
  rfl

theorem run_preprocess (ha : Settings.IsOpenEnded arguments) (hu : unit.IsNormal)
    (ht : unit.IsText) (compiler : String) (excluded : List Path) :
    run tree ⟨compiler, Task.arguments arguments (.preprocess unit), directory⟩ excluded =
      match tree.read unit with
      | .error e => .error (.unreadableInput unit e)
      | .ok source => .ok ⟨(Settings.ofArguments
            (Task.arguments arguments (.preprocess unit))).absolute directory, [],
          Include.walk (search arguments directory) tree
            (tree.identity unit :: excluded.map fun p => tree.identity (directory.normalizeFrom p))
            (roots arguments directory unit source)⟩ := by
  have hinputs : ((Settings.ofArguments (Task.arguments arguments (.preprocess unit))).absolute
      directory).inputs = [unit] := by
    rw [Settings.ofArguments_preprocess ha.complete hu.isAbsolute ht]
    simp [Settings.absolute, ha.inputs, hu.normalizeFrom_eq]
  have hbases : ((Settings.ofArguments (Task.arguments arguments (.preprocess unit))).absolute
      directory).bases = [] := by
    rw [Settings.ofArguments_preprocess ha.complete hu.isAbsolute ht]
    simp [Settings.absolute, ha.bases]
  -- With one input and no precompiled header, all that can fail is reading the unit.
  unfold run
  simp only [hinputs, hbases]
  cases tree.read unit with
  | error e => rfl
  | ok source =>
    simp only [baseEntries]
    rw [Settings.ofArguments_preprocess ha.complete hu.isAbsolute ht]
    rfl

theorem map_path_entries (scan : Scan) :
    scan.entries.map SnapshotEntry.path = Include.headers scan.events := by
  rw [entries, List.map_filterMap]
  congr 1
  funext event
  cases event <;> rfl

/-! ### Scans of any arguments -/

/-- The identities that count as visited before the includes of a unit are followed. -/
def visitedBefore (tree : FileTree) (directory : Path) (excluded : List Path)
    (base : List SnapshotEntry) (unit : Path) : List Path :=
  tree.identity unit :: base.map (tree.identity ·.path) ++
    excluded.map fun p => tree.identity (directory.normalizeFrom p)

/-- A scan is a walk from the unit that the arguments name. -/
theorem run_eq_ok {compiler : String} {excluded : List Path} {scan : Scan}
    (h : run tree ⟨compiler, arguments, directory⟩ excluded = .ok scan) :
    ∃ unit source base,
      ((Settings.ofArguments arguments).absolute directory).inputs.head? = some unit ∧
      tree.read unit = .ok source ∧
      baseEntries tree ((Settings.ofArguments arguments).absolute directory).bases = .ok base ∧
      scan = ⟨(Settings.ofArguments arguments).absolute directory, base,
        Include.walk (search arguments directory) tree
          (visitedBefore tree directory excluded base unit)
          (roots arguments directory unit source)⟩ := by
  simp only [run] at h
  split at h
  · cases h
  · next unit others hinputs =>
    split at h
    · cases h
    · next source hsource =>
      cases hbase : baseEntries tree ((Settings.ofArguments arguments).absolute directory).bases with
      | error e =>
        rw [hbase] at h
        cases h
      | ok base =>
        rw [hbase] at h
        cases h
        exact ⟨unit, source, base, by rw [hinputs]; rfl, hsource, rfl, rfl⟩

/-- If the unit and the precompiled headers in front of it can be read, the scan succeeds. -/
theorem run_of_head? {compiler : String} {excluded : List Path} {base : List SnapshotEntry}
    (hinput : ((Settings.ofArguments arguments).absolute directory).inputs.head? = some unit)
    (hsource : tree.read unit = .ok source)
    (hbase : baseEntries tree ((Settings.ofArguments arguments).absolute directory).bases =
      .ok base) :
    run tree ⟨compiler, arguments, directory⟩ excluded =
      .ok ⟨(Settings.ofArguments arguments).absolute directory, base,
        Include.walk (search arguments directory) tree
          (visitedBefore tree directory excluded base unit)
          (roots arguments directory unit source)⟩ := by
  simp only [run]
  split
  · next hnil =>
    rw [hnil] at hinput
    cases hinput
  · next input others hinputs =>
    rw [hinputs] at hinput
    cases hinput
    simp only [hsource, hbase]
    rfl

/-- A scan of which the walk takes no more than some steps. -/
theorem run_of_walkWithin {compiler : String} {excluded : List Path} {base : List SnapshotEntry}
    {steps : Nat} {events : List Event}
    (hinput : ((Settings.ofArguments arguments).absolute directory).inputs.head? = some unit)
    (hsource : tree.read unit = .ok source)
    (hbase : baseEntries tree ((Settings.ofArguments arguments).absolute directory).bases =
      .ok base)
    (hwithin : Include.walkWithin (search arguments directory) tree steps
      (visitedBefore tree directory excluded base unit)
      (roots arguments directory unit source) = some events) :
    run tree ⟨compiler, arguments, directory⟩ excluded =
      .ok ⟨(Settings.ofArguments arguments).absolute directory, base, events⟩ := by
  rw [run_of_head? hinput hsource hbase, Include.walk_of_walkWithin hwithin]

/-- What a scan finds are the headers on the walk from the unit. -/
theorem exists_walk_of_preprocess {compiler : String} {excluded : List Path} {found : Preprocessed}
    (h : preprocess tree ⟨compiler, arguments, directory⟩ excluded = .ok found) :
    ∃ unit source base events,
      ((Settings.ofArguments arguments).absolute directory).inputs.head? = some unit ∧
      tree.read unit = .ok source ∧
      baseEntries tree ((Settings.ofArguments arguments).absolute directory).bases = .ok base ∧
      Include.walk (search arguments directory) tree (visitedBefore tree directory excluded base unit)
        (roots arguments directory unit source) = events ∧
      found = ⟨Include.headers events,
        unresolved ⟨(Settings.ofArguments arguments).absolute directory, base, events⟩⟩ := by
  cases hrun : run tree ⟨compiler, arguments, directory⟩ excluded with
  | error e =>
    rw [preprocess, hrun] at h
    cases h
  | ok scan =>
    obtain ⟨unit, source, base, hinput, hsource, hbase, rfl⟩ := run_eq_ok hrun
    rw [preprocess, hrun] at h
    cases h
    refine ⟨unit, source, base, _, hinput, hsource, hbase, rfl, ?_⟩
    rw [map_path_entries]

/-- The input of arguments is a normal path. -/
theorem isNormal_of_mem_inputs (hd : directory.isAbsolute)
    (h : unit ∈ ((Settings.ofArguments arguments).absolute directory).inputs) : unit.IsNormal :=
  Path.isNormal_of_mem_map hd h

/-- What a scan finds are normal paths, whatever the tree. -/
theorem isNormal_of_mem_headers (hd : directory.isAbsolute) {compiler : String}
    {excluded : List Path} {found : Preprocessed}
    (h : preprocess tree ⟨compiler, arguments, directory⟩ excluded = .ok found)
    (hp : p ∈ found.headers) : p.IsNormal := by
  obtain ⟨unit, source, base, events, hinput, -, -, rfl, rfl⟩ := exists_walk_of_preprocess h
  have hunit : unit.IsNormal := isNormal_of_mem_inputs hd (List.mem_of_head? hinput)
  exact (Reaches.of_mem_walk hp).isNormal (isAbsolute_search hd arguments)
    (isAbsolute_roots hd hunit.isAbsolute)

/-- What a scan finds is what is reached. -/
theorem mem_headers_iff (htree : tree.IsPlain) (hd : directory.isAbsolute)
    (ha : Settings.IsOpenEnded arguments) (hu : unit.IsNormal) (ht : unit.IsText)
    {excluded : List Path} (hexcluded : ∀ e ∈ excluded, e.IsNormal) (compiler : String) :
    (∃ found, preprocess tree ⟨compiler, Task.arguments arguments (.preprocess unit), directory⟩
        excluded = .ok found ∧ p ∈ found.headers) ↔
      p ≠ unit ∧ ReachedFrom tree arguments directory (· ∈ excluded) unit p := by
  have hidentity : (excluded.map fun p => tree.identity (directory.normalizeFrom p)) = excluded := by
    refine (List.map_congr_left fun e he => ?_).trans (List.map_id excluded)
    rw [(hexcluded e he).normalizeFrom_eq, FileTree.identity_of_isNormal htree (hexcluded e he)]
    rfl
  rw [preprocess, run_preprocess ha hu ht, hidentity, FileTree.identity_of_isNormal htree hu]
  unfold ReachedFrom
  cases hr : tree.read unit with
  | error e =>
    refine iff_of_false ?_ ?_
    · rintro ⟨found, h, -⟩
      cases h
    · rintro ⟨-, source, h, -⟩
      cases h
  | ok source =>
    -- The scan has the unit among what it has visited, like what is excluded.
    have hwalk : p ∈ Include.headers (Include.walk (search arguments directory) tree
        (unit :: excluded) (roots arguments directory unit source)) ↔ _ :=
      mem_walk_iff (isAbsolute_search hd arguments) htree (isAbsolute_roots hd hu.isAbsolute)
    simp only [List.mem_cons] at hwalk
    rw [reaches_unit_iff hr] at hwalk
    constructor
    · rintro ⟨found, h, hp⟩
      cases h
      rw [map_path_entries] at hp
      exact ⟨(hwalk.1 hp).1, source, rfl, (hwalk.1 hp).2⟩
    · rintro ⟨hne, source', h, hreach⟩
      cases h
      refine ⟨_, rfl, ?_⟩
      rw [map_path_entries]
      exact hwalk.2 ⟨hne, hreach⟩

end PrecompiledHeaders.Scan
