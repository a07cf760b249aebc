import PrecompiledHeaders.Proofs.Frontend.Scan
import PrecompiledHeaders.Proofs.Generation.IncludeSet
import PrecompiledHeaders.Proofs.Path.Lists
import Mathlib.Data.List.Basic

/-!
# What a collector finds

A collector takes in results as if they were one (`Collector.addResults_eq`): the headers that they
list are given ids, without files of the project, and what there is to tell of the units is told.
For a frontend that leaves the files alone, all of this can be read off the units
(`Collector.collect_eq`).

So everything a collector does to its headers is to take in some more (`Collector.Takes`): those
that its units include and that are no files of the project (`Collector.collect_takes`). With the
scanning frontend these are the headers that are reached from the units
(`Collector.holds_collect_iff`).
-/

namespace PrecompiledHeaders

/-- Whether a frontend leaves the files as they are when it preprocesses. -/
def Frontend.LeavesFiles (frontend : Frontend) : Prop :=
  ∀ tree invocation excluded, (frontend.preprocess tree invocation excluded).2 = tree

/-- Whether a frontend lists absolute paths if the compiler runs in an absolute directory. -/
def Frontend.ListsAbsolute (frontend : Frontend) : Prop :=
  ∀ tree (invocation : Invocation) excluded found, invocation.directory.isAbsolute →
    (frontend.preprocess tree invocation excluded).1 = .ok found →
      ∀ p ∈ found.headers, p.isAbsolute = true

theorem Frontend.leavesFiles_scan : LeavesFiles scan := fun _ _ _ => rfl

theorem Frontend.listsAbsolute_scan : ListsAbsolute scan := fun _ _ _ _ hd h _ hp =>
  (Scan.isNormal_of_mem_headers hd h hp).isAbsolute

theorem DiagnosticSink.extend_append (sink : DiagnosticSink) (ds others : List Diagnostic) :
    sink.extend (ds ++ others) = (sink.extend ds).extend others := List.foldl_append

namespace Collector

variable {c c' c'' : Collector} {t t' t'' : PathTable} {new new' : Path → Prop} {tree : FileTree}
  {workspace : Workspace} {units : List Path}

/-! ### What results give -/

/-- The headers of a result: none, if the unit failed. -/
def listing : Except FrontendError Preprocessed → List Path
  | .ok found => found.headers
  | .error _ => []

/-- What there is to tell about a unit with a result. -/
def told (unit : Path) : Except FrontendError Preprocessed → List Diagnostic
  | .ok found => found.unresolved.map missingInclude
  | .error e => [unitFailure unit e]

/-- The headers that are no files of the project. -/
def outside (c : Collector) (headers : List Path) : List Path :=
  headers.filter fun header => !c.isProjectFile header

theorem mem_listing_iff {result : Except FrontendError Preprocessed} {p : Path} :
    p ∈ listing result ↔ ∃ found, result = .ok found ∧ p ∈ found.headers := by
  cases result with
  | ok found => simp [listing]
  | error e => simp [listing]

/-- Headers are taken in as their ids. -/
theorem addHeaders_eq (c : Collector) (t : PathTable) (headers : List Path) :
    c.addHeaders t headers =
      ({ c with found := (t.ids (c.outside headers)).1.foldl IncludeSet.insert c.found },
        (t.ids (c.outside headers)).2) := by
  induction headers generalizing c t with
  | nil => rfl
  | cons header rest ih =>
    rw [addHeaders]
    split
    · next hproject =>
      have houtside : c.outside (header :: rest) = c.outside rest := by simp [outside, hproject]
      rw [ih, houtside]
    · next hproject =>
      have houtside : c.outside (header :: rest) = header :: c.outside rest := by
        simp [outside, hproject]
      rw [houtside]
      exact ih _ _

/-- Results are taken in as if they were one. -/
theorem addResults_eq (c : Collector) (workspace : Workspace)
    (results : List (Path × Except FrontendError Preprocessed)) :
    c.addResults workspace results =
      ({ c with
          found := (workspace.table.ids (c.outside (results.flatMap fun r => listing r.2))).1.foldl
            IncludeSet.insert c.found },
        { workspace with
          table := (workspace.table.ids (c.outside (results.flatMap fun r => listing r.2))).2
          sink := workspace.sink.extend (results.flatMap fun r => told r.1 r.2) }) := by
  induction results generalizing c workspace with
  | nil => rfl
  | cons first rest ih =>
    obtain ⟨unit, result⟩ := first
    rw [addResults]
    cases result with
    | error e => exact ih c (workspace.emit (unitFailure unit e))
    | ok found =>
      simp only [addResult, addHeaders_eq]
      rw [ih]
      -- Ids for the headers of all results are those of the first and then those of the others.
      have houtside : c.outside ((⟨unit, .ok found⟩ :: rest).flatMap fun r => listing r.2) =
          c.outside found.headers ++ c.outside (rest.flatMap fun r => listing r.2) := by
        rw [List.flatMap_cons]
        exact List.filter_append ..
      rw [houtside, PathTable.ids_append, List.foldl_append, List.flatMap_cons,
        DiagnosticSink.extend_append]
      rfl

/-! ### Taking in headers -/

/-- What taking in does: besides the headers that were held, the new ones are held, and the table
    knows all of them. -/
structure Takes (c : Collector) (t : PathTable) (c' : Collector) (t' : PathTable)
    (new : Path → Prop) : Prop where
  projectFiles : c'.projectFiles = c.projectFiles
  le : t ≤ t'
  sound : c.found.IsSound t → c'.found.IsSound t'
  holds_iff : c.found.IsSound t →
    ∀ h : Path, c'.found.Holds t' h ↔ c.found.Holds t h ∨ new h.normalize

namespace Takes

theorem refl (c : Collector) (t : PathTable) : Takes c t c t fun _ => False :=
  ⟨rfl, t.le_refl, id, fun _ _ => (or_iff_left id).symm⟩

theorem trans (h : Takes c t c' t' new) (h' : Takes c' t' c'' t'' new') :
    Takes c t c'' t'' fun q => new q ∨ new' q := by
  refine ⟨h'.projectFiles.trans h.projectFiles, PathTable.le_trans h.le h'.le,
    fun hs => h'.sound (h.sound hs), fun hs p => ?_⟩
  rw [h'.holds_iff (h.sound hs), h.holds_iff hs, or_assoc]

theorem congr (h : Takes c t c' t' new) (hnew : ∀ q, new q ↔ new' q) : Takes c t c' t' new' :=
  ⟨h.projectFiles, h.le, h.sound, fun hs p => (h.holds_iff hs p).trans (or_congr_right (hnew _))⟩

/-- Taking in headers as their ids. -/
theorem ids (c : Collector) (t : PathTable) {paths : List Path}
    (habs : ∀ p ∈ paths, p.isAbsolute = true) :
    Takes c t { c with found := (t.ids paths).1.foldl IncludeSet.insert c.found } (t.ids paths).2
      fun q => ∃ p ∈ paths, p.normalize = q := by
  induction paths generalizing c t with
  | nil => exact (refl c t).congr fun q => by simp
  | cons first rest ih =>
    have hfirst : Takes c t { c with found := c.found.insert (t.id first).1 } (t.id first).2
        fun q => q = first.normalize :=
      ⟨rfl, t.le_id first, fun hs => hs.insert (habs first List.mem_cons_self),
        fun hs h => (hs.holds_insert_iff first h).trans or_comm⟩
    refine (hfirst.trans (ih _ _ fun p hp => habs p (List.mem_cons_of_mem _ hp))).congr fun q => ?_
    rw [List.exists_mem_cons_iff, eq_comm]

end Takes

/-- Whether headers that are listed lead to a normal path outside of the project. -/
def Lists (c : Collector) (headers : List Path) (q : Path) : Prop :=
  q.isAmong c.projectFiles = false ∧ ∃ p ∈ headers, p.normalize = q

/-- Whether the result of a unit leads to a normal path outside of the project. -/
def Brings (c : Collector) (result : Except FrontendError Preprocessed) (q : Path) : Prop :=
  ∃ found, result = .ok found ∧ c.Lists found.headers q

/-- Whether what a frontend gives lists absolute paths. -/
def IsAbsoluteResult (result : Except FrontendError Preprocessed) : Prop :=
  ∀ found, result = .ok found → ∀ p ∈ found.headers, p.isAbsolute = true

theorem addResults_takes (c : Collector) (workspace : Workspace)
    {results : List (Path × Except FrontendError Preprocessed)}
    (habs : ∀ result ∈ results.map Prod.snd, IsAbsoluteResult result) :
    (c.addResults workspace results).2.tree = workspace.tree ∧
      Takes c workspace.table (c.addResults workspace results).1
        (c.addResults workspace results).2.table
        fun q => ∃ result ∈ results.map Prod.snd, c.Brings result q := by
  have hmem (p : Path) : p ∈ c.outside (results.flatMap fun r => listing r.2) ↔
      c.isProjectFile p = false ∧ ∃ result ∈ results.map Prod.snd, ∃ found,
        result = .ok found ∧ p ∈ found.headers := by
    rw [outside, List.mem_filter, ← List.flatMap_map, List.mem_flatMap, and_comm,
      Bool.not_eq_true']
    simp only [mem_listing_iff]
  rw [addResults_eq]
  refine ⟨rfl, (Takes.ids c workspace.table fun p hp => ?_).congr fun q => ?_⟩
  · obtain ⟨-, result, hresult, found, hfound, hp⟩ := (hmem p).1 hp
    exact habs result hresult found hfound p hp
  · constructor
    · rintro ⟨p, hp, rfl⟩
      obtain ⟨hproject, result, hresult, found, hfound, hp⟩ := (hmem p).1 hp
      exact ⟨result, hresult, found, hfound, hproject, p, hp, rfl⟩
    · rintro ⟨result, hresult, found, hfound, hproject, p, hp, rfl⟩
      exact ⟨p, (hmem p).2 ⟨hproject, result, hresult, found, hfound, hp⟩, rfl⟩

/-! ### Preprocessing -/

theorem length_preprocessAll (c : Collector) (tree : FileTree) (units : List Path) :
    (c.preprocessAll tree units).1.length = units.length := by
  induction units generalizing tree with
  | nil => rfl
  | cons unit rest ih => simp [preprocessAll, ih]

theorem exists_of_mem_preprocessAll {result : Except FrontendError Preprocessed}
    (h : result ∈ (c.preprocessAll tree units).1) : ∃ front unit rest,
      units = front ++ unit :: rest ∧
      result = (c.frontend.preprocess (c.preprocessAll tree front).2 (c.invocation unit)
        c.excluded).1 := by
  induction units generalizing tree with
  | nil => exact absurd h List.not_mem_nil
  | cons unit rest ih =>
    rcases List.mem_cons.1 h with rfl | h
    · exact ⟨[], unit, rest, rfl, rfl⟩
    · obtain ⟨front, other, behind, rfl, hresult⟩ := ih h
      exact ⟨unit :: front, other, behind, rfl, hresult⟩

theorem preprocessAll_of_leavesFiles (h : c.frontend.LeavesFiles) (tree : FileTree)
    (units : List Path) : c.preprocessAll tree units =
      (units.map fun unit =>
        (c.frontend.preprocess tree (c.invocation unit) c.excluded).1, tree) := by
  induction units with
  | nil => rfl
  | cons unit rest ih =>
    simp only [preprocessAll]
    rw [h tree, ih]
    rfl

/-- What a frontend says about a unit. -/
def outcome (c : Collector) (tree : FileTree) (unit : Path) : Except FrontendError Preprocessed :=
  (c.frontend.preprocess tree (c.invocation unit) c.excluded).1

/-- The headers that units list and that are no files of the project. -/
def listed (c : Collector) (tree : FileTree) : List Path :=
  c.outside (c.units.flatMap fun unit => listing (c.outcome tree unit))

/-- Everything that there is to tell. -/
def report (c : Collector) (tree : FileTree) : List Diagnostic :=
  (c.missingExclusions tree).map missingExclusion ++
    c.units.flatMap fun unit => told unit (c.outcome tree unit)

theorem collect_eq (hleaves : c.frontend.LeavesFiles) (workspace : Workspace) :
    c.collect workspace =
      ({ c with
          found := (workspace.table.ids (c.listed workspace.tree)).1.foldl
            IncludeSet.insert c.found },
        { workspace with
          table := (workspace.table.ids (c.listed workspace.tree)).2
          sink := workspace.sink.extend (c.report workspace.tree) }) := by
  have hzip : c.units.zip (c.units.map (c.outcome workspace.tree)) =
      c.units.map fun unit => (unit, c.outcome workspace.tree unit) := by
    have h := List.zip_map' (f := id) (g := c.outcome workspace.tree) (l := c.units)
    rwa [List.map_id] at h
  have hall : c.preprocessAll workspace.tree c.units =
      (c.units.map (c.outcome workspace.tree), workspace.tree) :=
    preprocessAll_of_leavesFiles hleaves _ _
  simp only [collect, hall]
  rw [hzip, addResults_eq, List.flatMap_map, List.flatMap_map, report,
    DiagnosticSink.extend_append]
  rfl

/-- A collector with one unit takes in the headers of that unit, and tells what is missing. -/
theorem collect_of_unit {unit : Path} {headers : List Path} {missing : List UnresolvedInclude}
    (workspace : Workspace) (hleaves : c.frontend.LeavesFiles)
    (hunits : c.units = [unit]) (hmissing : c.missingExclusions workspace.tree = [])
    (hpre : (c.frontend.preprocess workspace.tree (c.invocation unit) c.excluded).1 =
      .ok ⟨headers, missing⟩) :
    c.collect workspace = ((c.addHeaders workspace.table headers).1,
      { workspace with
        table := (c.addHeaders workspace.table headers).2
        sink := workspace.sink.extend (missing.map missingInclude) }) := by
  rw [collect, preprocessAll_of_leavesFiles hleaves, hunits, hmissing]
  simp only [List.map_cons, List.map_nil, hpre, List.zip_cons_cons, List.zip_nil_left, addResults,
    addResult]
  rfl

/-- A collector takes in what its units bring. -/
theorem collect_takes (hf : c.frontend.ListsAbsolute) (hd : c.directory.isAbsolute)
    (workspace : Workspace) :
    (c.collect workspace).2.tree = (c.preprocessAll workspace.tree c.units).2 ∧
      Takes c workspace.table (c.collect workspace).1 (c.collect workspace).2.table
        fun q => ∃ result ∈ (c.preprocessAll workspace.tree c.units).1, c.Brings result q := by
  have hsnd : (c.units.zip (c.preprocessAll workspace.tree c.units).1).map Prod.snd =
      (c.preprocessAll workspace.tree c.units).1 :=
    List.map_snd_zip (Nat.le_of_eq (length_preprocessAll c _ _))
  -- Each unit has a result, so that none is lost beside the units.
  have habs : ∀ result ∈ (c.units.zip (c.preprocessAll workspace.tree c.units).1).map Prod.snd,
      IsAbsoluteResult result := by
    intro result hmem found hresult
    rw [hsnd] at hmem
    obtain ⟨front, unit, rest, -, rfl⟩ := exists_of_mem_preprocessAll hmem
    exact hf _ (c.invocation unit) c.excluded found hd hresult
  have h := addResults_takes c { workspace with
    tree := (c.preprocessAll workspace.tree c.units).2
    sink := workspace.sink.extend ((c.missingExclusions workspace.tree).map missingExclusion) } habs
  rw [hsnd] at h
  exact h

theorem tree_collect (hleaves : c.frontend.LeavesFiles) (workspace : Workspace) :
    (c.collect workspace).2.tree = workspace.tree := by
  rw [collect_eq hleaves]

/-! ### Ids that are given -/

/-- Whatever paths a frontend lists, the ids of the headers that are taken in are in the table. -/
theorem collect_isKnown (c : Collector) (workspace : Workspace) :
    workspace.table ≤ (c.collect workspace).2.table ∧ (c.found.IsKnown workspace.table →
      (c.collect workspace).1.found.IsKnown (c.collect workspace).2.table) := by
  simp only [collect, addResults_eq]
  exact ⟨workspace.table.le_ids _, fun hknown => hknown.ids _⟩

/-! ### Scanning -/

/-- Whether a collector scans units that are normal paths. -/
structure IsScanning (c : Collector) : Prop where
  frontend : c.frontend = .scan
  directory : c.directory.isAbsolute = true
  arguments : Settings.IsOpenEnded c.arguments
  units : ∀ unit ∈ c.units, unit.IsNormal ∧ unit.IsText
  excluded : ∀ p ∈ c.excluded, p.IsNormal

theorem brings_scan_iff (h : c.IsScanning) (htree : tree.IsPlain) {unit : Path}
    (hunit : unit ∈ c.units) (q : Path) :
    c.Brings (c.frontend.preprocess tree (c.invocation unit) c.excluded).1 q ↔
      q.isAmong c.projectFiles = false ∧ q ≠ unit ∧
        Scan.ReachedFrom tree c.arguments c.directory (· ∈ c.excluded) unit q := by
  rw [← Scan.mem_headers_iff htree h.directory h.arguments (h.units unit hunit).1
    (h.units unit hunit).2 h.excluded c.compiler, h.frontend]
  -- A scan lists normal paths, so normalising them again leads nowhere else.
  constructor
  · rintro ⟨found, hfound, hq, p, hp, rfl⟩
    have hnormal : p.IsNormal := Scan.isNormal_of_mem_headers h.directory hfound hp
    rw [hnormal.normalize_eq] at hq ⊢
    exact ⟨hq, found, hfound, hp⟩
  · rintro ⟨hq, found, hfound, hp⟩
    have hnormal : q.IsNormal := Scan.isNormal_of_mem_headers h.directory hfound hp
    exact ⟨found, hfound, hq, q, hp, hnormal.normalize_eq⟩

/-- A collector finds what is reached from its units, except for the files of the project. -/
theorem holds_collect_iff (h : c.IsScanning) (htree : workspace.tree.IsPlain)
    (hfound : c.found = .empty) (p : Path) :
    (c.collect workspace).1.found.Holds (c.collect workspace).2.table p ↔
      p.normalize.isAmong c.projectFiles = false ∧ ∃ unit ∈ c.units, p.normalize ≠ unit ∧
        Scan.ReachedFrom workspace.tree c.arguments c.directory (· ∈ c.excluded) unit
          p.normalize := by
  have hleaves : c.frontend.LeavesFiles := h.frontend ▸ Frontend.leavesFiles_scan
  have habs : c.frontend.ListsAbsolute := h.frontend ▸ Frontend.listsAbsolute_scan
  have htakes := (collect_takes habs h.directory workspace).2
  rw [htakes.holds_iff (hfound ▸ .empty _), hfound, or_iff_right IncludeSet.not_holds_empty,
    preprocessAll_of_leavesFiles hleaves]
  constructor
  · rintro ⟨result, hmem, hbrings⟩
    obtain ⟨unit, hunit, rfl⟩ := List.mem_map.1 hmem
    obtain ⟨hq, hne, hreached⟩ := (brings_scan_iff h htree hunit _).1 hbrings
    exact ⟨hq, unit, hunit, hne, hreached⟩
  · rintro ⟨hq, unit, hunit, hne, hreached⟩
    exact ⟨_, List.mem_map_of_mem hunit, (brings_scan_iff h htree hunit _).2 ⟨hq, hne, hreached⟩⟩

/-- What a scanning collector finds is listed for one of its units. -/
theorem exists_of_holds_collect (hscan : c.frontend = .scan) (hd : c.directory.isAbsolute = true)
    (hfound : c.found = .empty) {p : Path}
    (h : (c.collect workspace).1.found.Holds (c.collect workspace).2.table p) :
    ∃ unit ∈ c.units, ∃ found,
      Scan.preprocess workspace.tree (c.invocation unit) c.excluded = .ok found ∧
        p.normalize ∈ found.headers := by
  have hleaves : c.frontend.LeavesFiles := hscan ▸ Frontend.leavesFiles_scan
  have habs : c.frontend.ListsAbsolute := hscan ▸ Frontend.listsAbsolute_scan
  have htakes := (collect_takes habs hd workspace).2
  rw [htakes.holds_iff (hfound ▸ .empty _), hfound, or_iff_right IncludeSet.not_holds_empty,
    preprocessAll_of_leavesFiles hleaves] at h
  obtain ⟨result, hmem, found, hresult, -, q, hq, heq⟩ := h
  obtain ⟨unit, hunit, rfl⟩ := List.mem_map.1 hmem
  rw [hscan] at hresult
  have hnormal : q.IsNormal := Scan.isNormal_of_mem_headers hd hresult hq
  rw [hnormal.normalize_eq] at heq
  exact ⟨unit, hunit, found, hresult, heq ▸ hq⟩

/-! ### Diagnostics -/

/-- Units tell their unresolved includes, and only add to what was told. -/
theorem exists_told_collect (hleaves : c.frontend.LeavesFiles) (workspace : Workspace) : ∃ told,
    (c.collect workspace).2.sink = workspace.sink.extend told ∧
    ∀ unit ∈ c.units, ∀ found,
      (c.frontend.preprocess workspace.tree (c.invocation unit) c.excluded).1 = .ok found →
        ∀ missing ∈ found.unresolved, missingInclude missing ∈ told := by
  rw [collect_eq hleaves]
  refine ⟨c.report workspace.tree, rfl, fun unit hunit found hfound missing hin => ?_⟩
  refine List.mem_append_right _ (List.mem_flatMap.2 ⟨unit, hunit, ?_⟩)
  rw [outcome, hfound]
  exact List.mem_map_of_mem hin

end Collector

end PrecompiledHeaders
