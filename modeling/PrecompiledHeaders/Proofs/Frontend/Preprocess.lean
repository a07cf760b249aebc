import PrecompiledHeaders.Proofs.Frontend.Scan
import PrecompiledHeaders.Proofs.Include.Visits
import Mathlib.Data.List.Basic

/-!
# Preprocessing as reachability

What the scanning frontend tells about a unit, for any arguments (`Scan.headers_are_reachable`), in a
tree without links. Its headers are those that are reached from the unit and from what is forced
in front of it, each of them once, over headers that do not count as visited (`Scan.IsVisited`): the
unit itself, what is excluded, and what precompiled headers in front of the unit hold. Its
unresolved includes are those of the unit, of what is forced and of the headers that lead to no
file, each of them once.
-/

namespace PrecompiledHeaders

/-- What is told about an include that leads to no file. -/
def Include.report (missing : Include) : UnresolvedInclude :=
  ⟨missing.includer, String.ofList missing.directive.spelling⟩

namespace Scan

variable {tree : FileTree} {arguments : List String} {directory unit p : Path} {source : Bytes}
  {excluded bases : List Path} {entries : List SnapshotEntry}

theorem baseEntries_cons_iff {base : Path} :
    baseEntries tree (base :: bases) = .ok entries ↔ ∃ snapshot others,
      Snapshot.read tree base = .ok snapshot ∧ baseEntries tree bases = .ok others ∧
        snapshot.entries ++ others = entries := by
  rw [baseEntries]
  cases Snapshot.read tree base with
  | error e => simp
  | ok snapshot => cases baseEntries tree bases <;> simp [pure, Except.pure, bind, Except.bind]

/-- The entries of precompiled headers are those of their snapshots. -/
theorem mem_baseEntries_iff (h : baseEntries tree bases = .ok entries) (e : SnapshotEntry) :
    e ∈ entries ↔ ∃ base ∈ bases, ∃ snapshot, Snapshot.read tree base = .ok snapshot ∧
      e ∈ snapshot.entries := by
  induction bases generalizing entries with
  | nil =>
    cases h
    simp
  | cons base rest ih =>
    obtain ⟨snapshot, others, hread, hrest, rfl⟩ := baseEntries_cons_iff.1 h
    rw [List.mem_append, ih hrest, List.exists_mem_cons_iff, hread]
    simp

/-- Precompiled headers are read one after the other. -/
theorem baseEntries_append_eq (tree : FileTree) (bases others : List Path) :
    baseEntries tree (bases ++ others) = do
      let own ← baseEntries tree bases
      let front ← baseEntries tree others
      return own ++ front := by
  induction bases with
  | nil =>
    rw [List.nil_append]
    cases baseEntries tree others <;> rfl
  | cons first rest ih =>
    rw [List.cons_append, baseEntries, baseEntries, ih]
    cases Snapshot.read tree first with
    | error e => rfl
    | ok snapshot =>
      cases baseEntries tree rest with
      | error e => rfl
      | ok own =>
        cases baseEntries tree others with
        | error e => rfl
        | ok front => exact congrArg Except.ok (List.append_assoc _ _ _).symm

/-- Whether a path counts as visited from the start: it is the unit, it is excluded, or a
    precompiled header in front of the unit holds it. -/
def IsVisited (tree : FileTree) (arguments : List String) (directory : Path)
    (excluded : List Path) (unit p : Path) : Prop :=
  p = unit ∨ p ∈ excluded.map directory.normalizeFrom ∨
    ∃ base ∈ ((Settings.ofArguments arguments).absolute directory).bases, ∃ snapshot,
      Snapshot.read tree base = .ok snapshot ∧ ∃ q ∈ snapshot.paths, q.normalize = p

/-- In a tree without links, what a scan remembers from the start are the paths that count as
    visited. -/
theorem mem_visitedBefore_iff (htree : tree.IsPlain) (hd : directory.isAbsolute)
    (hu : unit.IsNormal) (habs : ∀ e ∈ entries, e.path.isAbsolute = true)
    (hbase : baseEntries tree ((Settings.ofArguments arguments).absolute directory).bases =
      .ok entries) :
    p ∈ visitedBefore tree directory excluded entries unit ↔
      IsVisited tree arguments directory excluded unit p := by
  have hexcluded : (excluded.map fun p => tree.identity (directory.normalizeFrom p)) =
      excluded.map directory.normalizeFrom :=
    List.map_congr_left fun e _ =>
      FileTree.identity_of_isNormal htree (Path.isNormal_normalizeFrom hd e)
  have hentries : p ∈ entries.map (tree.identity ·.path) ↔
      ∃ base ∈ ((Settings.ofArguments arguments).absolute directory).bases, ∃ snapshot,
        Snapshot.read tree base = .ok snapshot ∧ ∃ q ∈ snapshot.paths, q.normalize = p := by
    rw [List.mem_map]
    constructor
    · rintro ⟨e, he, rfl⟩
      obtain ⟨base, hmem, snapshot, hread, hin⟩ := (mem_baseEntries_iff hbase e).1 he
      exact ⟨base, hmem, snapshot, hread, e.path, List.mem_map_of_mem hin,
        (FileTree.identity_of_isAbsolute htree (habs e he)).symm⟩
    · rintro ⟨base, hmem, snapshot, hread, q, hq, rfl⟩
      obtain ⟨e, hin, rfl⟩ := List.mem_map.1 hq
      have he := (mem_baseEntries_iff hbase e).2 ⟨base, hmem, snapshot, hread, hin⟩
      exact ⟨e, he, FileTree.identity_of_isAbsolute htree (habs e he)⟩
  rw [visitedBefore, List.cons_append, List.mem_cons, List.mem_append, hentries, hexcluded,
    FileTree.identity_of_isNormal htree hu, IsVisited]
  exact or_congr_right or_comm

theorem unresolved_eq (scan : Scan) :
    scan.unresolved = (Include.missing scan.events).map Include.report := by
  rw [unresolved, Include.missing, List.map_filterMap]
  congr 1
  funext event
  cases event <;> rfl

/-- A unit that can be read is preprocessed by a walk, whatever is excluded. -/
theorem preprocess_of_walk {compiler : String} {events : List Event}
    (ha : Settings.IsOpenEnded arguments) (hu : unit.IsNormal) (ht : unit.IsText)
    (hsource : tree.read unit = .ok source)
    (hevents : Include.walk (search arguments directory) tree
      (visitedBefore tree directory excluded [] unit) (roots arguments directory unit source) =
        events) :
    preprocess tree ⟨compiler, Task.arguments arguments (.preprocess unit), directory⟩ excluded =
      .ok ⟨Include.headers events, (Include.missing events).map Include.report⟩ := by
  rw [visitedBefore, List.map_nil, List.cons_append, List.nil_append] at hevents
  rw [preprocess, run_preprocess ha hu ht, hsource]
  simp only [hevents]
  refine congrArg Except.ok ?_
  rw [map_path_entries, unresolved_eq]

/-- What there is to tell about a unit, if its walk takes at most the given number of steps. -/
def preprocessWithin (steps : Nat) (tree : FileTree) (arguments : List String) (directory : Path)
    (excluded : List Path) (unit : Path) : Option Preprocessed :=
  match tree.read unit with
  | .error _ => none
  | .ok source =>
    (Include.walkWithin (search arguments directory) tree steps
      (visitedBefore tree directory excluded [] unit) (roots arguments directory unit source)).map
        fun events => ⟨Include.headers events, (Include.missing events).map Include.report⟩

/-- A unit is preprocessed by evaluating its walk. -/
theorem preprocess_of_preprocessWithin {compiler : String} {steps : Nat} {found : Preprocessed}
    (ha : Settings.IsOpenEnded arguments) (hu : unit.IsNormal) (ht : unit.IsText)
    (h : preprocessWithin steps tree arguments directory excluded unit = some found) :
    preprocess tree ⟨compiler, Task.arguments arguments (.preprocess unit), directory⟩ excluded =
      .ok found := by
  rw [preprocessWithin] at h
  split at h
  · cases h
  · next source hsource =>
    obtain ⟨events, hevents, rfl⟩ := Option.map_eq_some_iff.1 h
    exact preprocess_of_walk ha hu ht hsource (Include.walk_of_walkWithin hevents)

/-- What a scan tells about a unit: the headers that are reached from it, each once, and the includes
    that lead to no file, each once. -/
theorem headers_are_reachable {compiler : String} {found : Preprocessed} (htree : tree.IsPlain)
    (hd : directory.isAbsolute)
    (hbases : ∀ base ∈ ((Settings.ofArguments arguments).absolute directory).bases, ∀ snapshot,
      Snapshot.read tree base = .ok snapshot → ∀ q ∈ snapshot.paths, q.isAbsolute = true)
    (h : (Frontend.scan.preprocess tree ⟨compiler, arguments, directory⟩ excluded).1 =
      .ok found) :
    ∃ unit source,
      ((Settings.ofArguments arguments).absolute directory).inputs.head? = some unit ∧
      tree.read unit = .ok source ∧
      found.headers.Pairwise (fun p q => ¬Path.Same p q) ∧
      (∀ p, p ∈ found.headers ↔ Reaches (search arguments directory) tree
        (IsVisited tree arguments directory excluded unit)
        (roots arguments directory unit source) p) ∧
      found.unresolved.Perm ((Include.lost (search arguments directory) tree
        (roots arguments directory unit source ++ found.headers.flatMap tree.includes)).map
          Include.report) := by
  have hpreprocess : preprocess tree ⟨compiler, arguments, directory⟩ excluded = .ok found := h
  rw [preprocess] at hpreprocess
  cases hrun : run tree ⟨compiler, arguments, directory⟩ excluded with
  | error e =>
    rw [hrun] at hpreprocess
    cases hpreprocess
  | ok scan =>
    obtain ⟨unit, source, entries, hinput, hsource, hbase, rfl⟩ := run_eq_ok hrun
    rw [hrun] at hpreprocess
    cases hpreprocess
    have hunit : unit.IsNormal := isNormal_of_mem_inputs hd (List.mem_of_head? hinput)
    have hsearch := isAbsolute_search hd arguments
    have hroots : ∀ i ∈ roots arguments directory unit source, i.directory.isAbsolute = true :=
      isAbsolute_roots hd hunit.isAbsolute
    have habs : ∀ e ∈ entries, e.path.isAbsolute = true := by
      intro e he
      obtain ⟨base, hmem, snapshot, hread, hin⟩ := (mem_baseEntries_iff hbase e).1 he
      exact hbases base hmem snapshot hread e.path (List.mem_map_of_mem hin)
    refine ⟨unit, source, hinput, hsource, ?_, fun p => ?_, ?_⟩
    · -- Paths that are the same are equal here, and have one identity.
      rw [map_path_entries]
      refine (Include.pairwise_identity_walk _ _ _ _).imp_of_mem fun {p q} hp hq hne hsame => ?_
      have hp' := (Reaches.of_mem_walk hp).isNormal hsearch hroots
      have hq' := (Reaches.of_mem_walk hq).isNormal hsearch hroots
      exact hne (congrArg _ ((hp'.same_iff hq').1 hsame))
    · rw [map_path_entries, mem_walk_iff hsearch htree hroots]
      have hiff (q : Path) : q ∈ visitedBefore tree directory excluded entries unit ↔
          IsVisited tree arguments directory excluded unit q :=
        mem_visitedBefore_iff htree hd hunit habs hbase
      constructor
      · exact fun hreach => hreach.mono (fun q => (hiff q).2) fun _ => id
      · exact fun hreach => hreach.mono (fun q => (hiff q).1) fun _ => id
    · rw [unresolved_eq, map_path_entries]
      exact (Include.missing_walk_perm _ _ _ _).map _

theorem normalize_of_mem_headers {compiler : String} {found : Preprocessed}
    (h : preprocess tree ⟨compiler, arguments, directory⟩ excluded = .ok found)
    (hp : p ∈ found.headers) : p.normalize = p := by
  obtain ⟨unit, source, entries, events, -, -, -, rfl, rfl⟩ := exists_walk_of_preprocess h
  exact (Reaches.of_mem_walk hp).normalize_eq

/-- In any tree, a header that is listed is a file, and none that is excluded, under whatever path. -/
theorem isFile_of_mem_headers {compiler : String} {found : Preprocessed}
    (h : preprocess tree ⟨compiler, arguments, directory⟩ excluded = .ok found)
    (hp : p ∈ found.headers) : tree.isFile p = true ∧
      ∀ e ∈ excluded, tree.identity p ≠ tree.identity (directory.normalizeFrom e) := by
  obtain ⟨unit, source, entries, events, -, -, -, rfl, rfl⟩ := exists_walk_of_preprocess h
  refine ⟨(Reaches.of_mem_walk hp).isFile, fun e he heq => ?_⟩
  refine Include.not_visited_of_mem_walk hp ?_
  rw [heq, visitedBefore]
  exact List.mem_append_right _
    (List.mem_map_of_mem (f := fun q => tree.identity (directory.normalizeFrom q)) he)

/-! ### Headers in a ring -/

/-- A unit with an include that leads nowhere, and two headers that include each other. -/
def ring : FileTree where
  entries := [
    ([(Path.ofString "a.cpp").bytes],
      .file (Path.ofString "#include \"x.h\"\n#include \"gone.h\"\n").bytes),
    ([(Path.ofString "x.h").bytes], .file (Path.ofString "#include \"y.h\"\n").bytes),
    ([(Path.ofString "y.h").bytes], .file (Path.ofString "#include \"x.h\"\n").bytes)]
  here := []

theorem isPlain_ring : ring.IsPlain :=
  FileTree.isPlain_of_entries (by simp [ring])

/-- Each of the two headers is listed once, and so is what is missing. -/
theorem headers_are_reachable_ring : ∃ found,
    (Frontend.scan.preprocess ring ⟨"clang++", ["/a.cpp"], .root⟩ []).1 = .ok found ∧
      .ofString "/x.h" ∈ found.headers ∧ .ofString "/y.h" ∈ found.headers ∧
      found.headers.Pairwise (fun p q => ¬Path.Same p q) ∧
      ⟨.ofString "/a.cpp", "gone.h"⟩ ∈ found.unresolved := by
  have hok : (Frontend.scan.preprocess ring ⟨"clang++", ["/a.cpp"], .root⟩ []).1.isOk = true := by
    decide +kernel
  cases hpre : (Frontend.scan.preprocess ring ⟨"clang++", ["/a.cpp"], .root⟩ []).1 with
  | error e =>
    rw [hpre] at hok
    cases hok
  | ok found =>
    have hbases : ((Settings.ofArguments ["/a.cpp"]).absolute .root).bases = [] := by
      decide +kernel
    obtain ⟨unit, source, hinput, hsource, hpairwise, hheaders, hunresolved⟩ :=
      headers_are_reachable isPlain_ring rfl (by simp [hbases]) hpre
    have hunit : unit = .ofString "/a.cpp" := by
      have hhead : ((Settings.ofArguments ["/a.cpp"]).absolute .root).inputs.head? =
          some (.ofString "/a.cpp") := by decide +kernel
      exact Option.some.inj (hinput.symm.trans hhead)
    have hroots : roots ["/a.cpp"] .root unit source =
        [⟨.ofString "/a.cpp", .root, ⟨.quoted, "x.h".toList⟩⟩,
          ⟨.ofString "/a.cpp", .root, ⟨.quoted, "gone.h".toList⟩⟩] := by
      subst hunit
      cases hsource
      decide +kernel
    have hnot (q : Path) (hq : q ≠ .ofString "/a.cpp") :
        ¬IsVisited ring ["/a.cpp"] .root [] unit q := by
      simp [IsVisited, hbases, hunit, hq]
    have hx : .ofString "/x.h" ∈ found.headers := by
      refine (hheaders _).2 (.start (hroots ▸ List.mem_cons_self) ?_ (hnot _ (by decide)))
      decide +kernel
    have hy : .ofString "/y.h" ∈ found.headers := by
      refine (hheaders _).2 (.next ((hheaders _).1 hx)
        (i := ⟨.ofString "/x.h", .root, ⟨.quoted, "y.h".toList⟩⟩) ?_ ?_ (hnot _ (by decide)))
      · decide +kernel
      · decide +kernel
    refine ⟨found, rfl, hx, hy, hpairwise, hunresolved.mem_iff.2 ?_⟩
    refine List.mem_map_of_mem (f := Include.report)
      (a := ⟨.ofString "/a.cpp", .root, ⟨.quoted, "gone.h".toList⟩⟩) (List.mem_filter.2 ⟨?_, ?_⟩)
    · rw [hroots]
      simp
    · decide +kernel

end Scan

end PrecompiledHeaders
