import PrecompiledHeaders.Proofs.Generation.Collect
import PrecompiledHeaders.Proofs.Path.Normal

/-!
# How results are merged

A collector puts what its units give together in the order of the units (`Collector.collect_eq`): the
headers that succeeding units list, without files of the project, are given ids one after the other,
and each id is held where it comes first. Beside that, missing exclusions are told, and then of each
unit either the includes that lead to no file or that it failed.

So what is collected can be read off the units (`Collector.collects_in_order`), for any frontend that
leaves the files alone. A unit that fails adds its error and nothing else: without it, all else stays
as it is.
-/

namespace PrecompiledHeaders

/-! ### Ids of headers -/

namespace PathTable

variable {t t' : PathTable} {p q : Path} {id id' : PathId} {headers others : List Path}
  {ids ids' : List PathId}

/-- Whether a table has given an id to a normal form. -/
structure IsId (t : PathTable) (p : Path) (id : PathId) : Prop where
  get? : t.get? p = some id
  normal : p.normalize = p

theorem IsId.of_get? (h : t.get? p = some id) : t.IsId p.normalize id :=
  ⟨(t.get?_congr p.normalize_normalize).trans h, p.normalize_normalize⟩

theorem IsId.mono (h : t.IsId p id) (hle : t ≤ t') : t'.IsId p id := ⟨hle p id h.get?, h.normal⟩

theorem IsId.path_eq (h : t.IsId p id) : t.path id = .ok p := by
  rw [path_of_get? h.get?, h.normal]

/-- Ids keep normal forms apart. -/
theorem biUnique_isId (t : PathTable) : Relator.BiUnique t.IsId := by
  constructor
  · intro p q id hp hq
    exact Except.ok.inj (hp.path_eq.symm.trans hq.path_eq)
  · intro p id id' h h'
    exact Option.some.inj (h.get?.symm.trans h'.get?)

/-- Whether a table has given ids to headers, one to each and in this order. -/
structure Gives (t : PathTable) (headers : List Path) (ids : List PathId) : Prop where
  nodup : ids.Nodup
  isId : List.Forall₂ t.IsId headers ids

theorem Gives.mono (h : t.Gives headers ids) (hle : t ≤ t') : t'.Gives headers ids :=
  ⟨h.nodup, h.isId.imp fun _ _ hid => hid.mono hle⟩

theorem Gives.exists_of_mem (h : t.Gives headers ids) (hid : id ∈ ids) :
    ∃ header ∈ headers, t.IsId header id := by
  obtain ⟨nodup, hids⟩ := h
  clear nodup
  induction hids with
  | nil => exact absurd hid List.not_mem_nil
  | cons hfirst _ ih =>
    rcases List.mem_cons.1 hid with rfl | hid
    · exact ⟨_, List.mem_cons_self, hfirst⟩
    · obtain ⟨header, hheader, hisId⟩ := ih hid
      exact ⟨header, List.mem_cons_of_mem _ hheader, hisId⟩

/-- Paths that are given ids in order have these ids. -/
theorem isId_ids (t : PathTable) (paths : List Path) :
    List.Forall₂ (t.ids paths).2.IsId (paths.map Path.normalize) (t.ids paths).1 := by
  have hget : List.Forall₂ (· = ·) (paths.map (t.ids paths).2.get?) ((t.ids paths).1.map some) :=
    List.forall₂_eq_eq_eq ▸ t.map_get?_ids paths
  rw [List.forall₂_map_left_iff, List.forall₂_map_right_iff] at hget
  rw [List.forall₂_map_left_iff]
  exact hget.imp fun _ _ => IsId.of_get?

/-- Where the normal forms come first, the ids do. -/
theorem gives_ids (t : PathTable) (paths : List Path) :
    (t.ids paths).2.Gives (paths.map Path.normalize).eraseDups (t.ids paths).1.eraseDups :=
  ⟨nodup_eraseDups _, forall₂_eraseDups (biUnique_isId _) (t.isId_ids paths)⟩

end PathTable

namespace Collector

open PrecompiledHeaders.Path

variable {c : Collector} {tree : FileTree} {unit : Path}

/-! ### New collectors -/

/-- The normal forms of the headers that are collected. -/
def collected (c : Collector) (tree : FileTree) : List Path :=
  ((c.listed tree).map normalize).eraseDups

/-- A collector that has found nothing yet gives ids to what it collects. -/
theorem gives_collect (hleaves : c.frontend.LeavesFiles) (hfound : c.found = .empty)
    (workspace : Workspace) : (c.collect workspace).2.table.Gives (c.collected workspace.tree)
      (c.collect workspace).1.found.order := by
  have horder : (c.collect workspace).1.found.order =
      (workspace.table.ids (c.listed workspace.tree)).1.eraseDups := by
    rw [collect_eq hleaves, hfound]
    exact IncludeSet.order_ofList _
  rw [horder, collect_eq hleaves]
  exact workspace.table.gives_ids _

/-- Whether a collector has no units and has found nothing. -/
structure IsFresh (c : Collector) : Prop where
  units : c.units = []
  found : c.found = .empty

/-- A collector that was told its units, the files of the project, and what is excluded. -/
def prepared (c : Collector) (files projectFiles excluded : List Path) : Collector :=
  ((c.addUnits files).setProjectFiles projectFiles).setExcluded excluded

variable {fresh : Collector}

theorem IsFresh.units_prepared (h : fresh.IsFresh) (files projectFiles excluded : List Path) :
    (fresh.prepared files projectFiles excluded).units =
      (files.map fresh.directory.normalizeFrom).eraseDups := by
  have hunits : (fresh.prepared files projectFiles excluded).units =
      dedup (fresh.units ++ files.map fresh.directory.normalizeFrom) := rfl
  rw [hunits, h.units, List.nil_append]
  refine dedup_eq_eraseDups fun p hp => ?_
  obtain ⟨file, -, rfl⟩ := List.mem_map.1 hp
  exact normalize_normalizeFrom _ file

/-- The headers that are kept are those whose normal forms are no files of the project. -/
theorem collected_prepared (fresh : Collector) (files projectFiles excluded : List Path)
    (tree : FileTree) :
    (fresh.prepared files projectFiles excluded).collected tree =
      ((((fresh.prepared files projectFiles excluded).units.flatMap fun unit =>
        listing ((fresh.prepared files projectFiles excluded).outcome tree unit)).map
          normalize).filter fun p => p ∉ projectFiles.map fresh.directory.normalizeFrom).eraseDups := by
  have hproject (header : Path) : (!(fresh.prepared files projectFiles excluded).isProjectFile
      header) = decide (header.normalize ∉ projectFiles.map fresh.directory.normalizeFrom) := by
    have hiff : header.normalize.isAmong (projectFiles.map fresh.directory.normalizeFrom) = true ↔
        header.normalize ∈ projectFiles.map fresh.directory.normalizeFrom :=
      isAmong_iff_mem header.normalize_normalize fun p hp => by
        obtain ⟨file, -, rfl⟩ := List.mem_map.1 hp
        exact normalize_normalizeFrom _ file
    rw [decide_not, ← decide_eq_decide.2 hiff, Bool.decide_coe]
    rfl
  rw [collected, listed, outside, List.filter_map]
  simp only [hproject]
  rfl

/-! ### Units that fail -/

theorem told_of_error (unit : Path) {result : Except FrontendError Preprocessed}
    (h : result.isOk = false) :
    ∃ d, told unit result = [d] ∧ d.severity = .error ∧ d.file = some unit ∧
      (d.code = .unreadableUnit ∨ d.code = .frontendFailure) := by
  cases result with
  | ok found => cases h
  | error e =>
    refine ⟨unitFailure unit e, rfl, rfl, rfl, ?_⟩
    cases e <;> first | exact .inl rfl | exact .inr rfl

theorem severity_of_mem_told {result : Except FrontendError Preprocessed} (h : result.isOk = true)
    {d : Diagnostic} (hd : d ∈ told unit result) :
    d.severity = .warning ∧ d.code = .unresolvedInclude := by
  cases result with
  | error e => cases h
  | ok found =>
    obtain ⟨missing, -, rfl⟩ := List.mem_map.1 hd
    exact ⟨rfl, rfl⟩

/-- What is told about units, but for errors, is told about those that succeed. -/
theorem filter_told (outcome : Path → Except FrontendError Preprocessed) (units : List Path) :
    (units.flatMap fun unit => told unit (outcome unit)).filter (fun d => d.severity ≠ .error) =
      (units.filter fun unit => (outcome unit).isOk).flatMap fun unit =>
        told unit (outcome unit) := by
  induction units with
  | nil => rfl
  | cons unit rest ih =>
    rw [List.flatMap_cons, List.filter_append, ih]
    cases hok : (outcome unit).isOk with
    | false =>
      obtain ⟨d, htold, herror, -⟩ := told_of_error unit hok
      simp [htold, herror, hok]
    | true =>
      have hall : (told unit (outcome unit)).filter (fun d => d.severity ≠ .error) =
          told unit (outcome unit) := List.filter_eq_self.2 fun d hd => by
        simp [(severity_of_mem_told hok hd).1]
      simp only [hall, List.filter_cons, hok, if_true, List.flatMap_cons]

/-- Units that fail list nothing. -/
theorem flatMap_listing_filter (outcome : Path → Except FrontendError Preprocessed)
    (units : List Path) :
    ((units.filter fun unit => (outcome unit).isOk).flatMap fun unit => listing (outcome unit)) =
      units.flatMap fun unit => listing (outcome unit) := by
  induction units with
  | nil => rfl
  | cons unit rest ih =>
    cases hok : (outcome unit).isOk with
    | true => simp only [List.filter_cons, hok, if_true, List.flatMap_cons, ih]
    | false =>
      have hnone : listing (outcome unit) = [] := by
        cases hresult : outcome unit with
        | ok found =>
          rw [hresult] at hok
          cases hok
        | error e => rfl
      rw [List.filter_cons_of_neg (by simp [hok]), ih, List.flatMap_cons, hnone, List.nil_append]

/-- A collector without the units that fail. -/
def succeeding (c : Collector) (tree : FileTree) : Collector :=
  { c with units := c.units.filter fun unit => (c.outcome tree unit).isOk }

theorem listed_succeeding (c : Collector) (tree : FileTree) :
    (c.succeeding tree).listed tree = c.listed tree :=
  congrArg c.outside (flatMap_listing_filter (c.outcome tree) c.units)

/-- Nothing but errors is missing in what is told. -/
theorem report_succeeding (c : Collector) (tree : FileTree) :
    (c.succeeding tree).report tree = (c.report tree).filter fun d => d.severity ≠ .error := by
  have hmissing : ((c.missingExclusions tree).map missingExclusion).filter
      (fun d => d.severity ≠ .error) = (c.missingExclusions tree).map missingExclusion :=
    List.filter_eq_self.2 fun d hd => by
      obtain ⟨p, -, rfl⟩ := List.mem_map.1 hd
      rfl
  rw [report, report, List.filter_append, hmissing, filter_told]
  rfl

/-- To take the failing units from the files that are added is to take them from the units. -/
theorem IsFresh.prepared_filter (h : fresh.IsFresh) (files projectFiles excluded : List Path)
    (tree : FileTree) :
    fresh.prepared (files.filter fun file => ((fresh.prepared files projectFiles excluded).outcome
        tree (fresh.directory.normalizeFrom file)).isOk) projectFiles excluded =
      (fresh.prepared files projectFiles excluded).succeeding tree := by
  have hfilter (keep : Path → Bool) :
      (fresh.prepared (files.filter fun file => keep (fresh.directory.normalizeFrom file))
        projectFiles excluded).units =
          (fresh.prepared files projectFiles excluded).units.filter keep := by
    rw [h.units_prepared, h.units_prepared, ← eraseDups_filter, List.filter_map]
    rfl
  have hunits := hfilter fun unit =>
    ((fresh.prepared files projectFiles excluded).outcome tree unit).isOk
  exact congrArg (fun units => { fresh.prepared files projectFiles excluded with units }) hunits

/-- A collection lists the headers of the units that succeed, in the order of the units, each where it
    comes first, without files of the project. It tells of the excluded headers that are not there, and
    then of each unit the includes that lead to no file, or one error. Units that fail change nothing
    but that error. -/
theorem collects_in_order (hfresh : fresh.IsFresh) (hleaves : fresh.frontend.LeavesFiles)
    (files projectFiles excluded : List Path) (workspace : Workspace) :
    let taken := fresh.directory.normalizeFrom
    let c := fresh.prepared files projectFiles excluded
    let outcome := c.outcome workspace.tree
    let units := (files.map taken).eraseDups
    let report := ((excluded.map taken).filter fun p =>
        !(workspace.tree.canonical p).isOk).map missingExclusion ++
      units.flatMap fun unit => told unit (outcome unit)
    let others := fresh.prepared (files.filter fun file => (outcome (taken file)).isOk) projectFiles
      excluded
    (c.collect workspace).2.table.Gives
      ((((units.flatMap fun unit => listing (outcome unit)).map normalize).filter fun p =>
        p ∉ projectFiles.map taken).eraseDups) (c.collect workspace).1.takeFound.1.order ∧
    (c.collect workspace).2.sink = workspace.sink.extend report ∧
    (∀ unit, ((outcome unit).isOk = true → ∀ d ∈ told unit (outcome unit),
        d.severity = .warning ∧ d.code = .unresolvedInclude) ∧
      ((outcome unit).isOk = false → ∃ d, told unit (outcome unit) = [d] ∧ d.severity = .error ∧
        d.file = some unit ∧ (d.code = .unreadableUnit ∨ d.code = .frontendFailure))) ∧
    (others.collect workspace).1.takeFound.1 = (c.collect workspace).1.takeFound.1 ∧
    (others.collect workspace).2.table = (c.collect workspace).2.table ∧
    (others.collect workspace).2.sink =
      workspace.sink.extend (report.filter fun d => d.severity ≠ .error) := by
  intro taken c outcome units report others
  have hunits : c.units = units := hfresh.units_prepared _ _ _
  have hothers : others = c.succeeding workspace.tree := hfresh.prepared_filter _ _ _ _
  have hreport : c.report workspace.tree = report := by
    rw [Collector.report, hunits]
    rfl
  refine ⟨?_, ?_, fun unit => ⟨fun hok d hd => severity_of_mem_told hok hd, told_of_error unit⟩, ?_⟩
  · have hgives := gives_collect (c := c) hleaves hfresh.found workspace
    rw [collected_prepared, hunits] at hgives
    exact hgives
  · rw [collect_eq (c := c) hleaves, hreport]
  · rw [hothers, collect_eq (c := c.succeeding _) hleaves, collect_eq (c := c) hleaves,
      listed_succeeding, report_succeeding, hreport]
    exact ⟨rfl, rfl, rfl⟩

/-! ### A batch with a crash -/

/-- What is known of three units, of which one crashes. -/
def batchOutcome : Option String → Except FrontendError Preprocessed
  | some "/a.cpp" => .ok ⟨[ofString "/x.h", ofString "/d/../y.h", ofString "/p.h"], []⟩
  | some "/b.cpp" =>
    .ok ⟨[ofString "/y.h", ofString "/z.h", ofString "/x.h"], [⟨ofString "/b.cpp", "gone.h"⟩]⟩
  | _ => .error (.failed "clang++" none "segfault\n")

/-- A collector for a frontend that knows the units by their paths. -/
def batch : Collector where
  frontend :=
    { name := "batch"
      preprocess tree invocation _ := (batchOutcome invocation.arguments.getLast?, tree)
      compile tree _ := (.ok (), tree) }
  compiler := "clang++"
  arguments := []
  directory := .root

/-- The units of the batch: one is added twice, and one crashes. -/
def batchFiles : List Path :=
  [ofString "b.cpp", ofString "crash.cpp", ofString "/d/../b.cpp", ofString "a.cpp"]

/-- The batch, ready for collecting. -/
def preparedBatch : Collector :=
  batch.prepared batchFiles [ofString "./p.h"] [ofString "gone/too.h"]

/-- No file at all. -/
def batchWorkspace : Workspace := ⟨⟨[], []⟩, .empty, .empty⟩

/-- The unit that crashes takes nothing away from the others. -/
theorem collects_in_order_batch : batch.IsFresh ∧ batch.frontend.LeavesFiles ∧
    (preparedBatch.collect batchWorkspace).2.table.Gives
      [ofString "/y.h", ofString "/z.h", ofString "/x.h"]
      (preparedBatch.collect batchWorkspace).1.takeFound.1.order ∧
    (preparedBatch.collect batchWorkspace).2.sink.pending.map Diagnostic.code =
      [.unresolvedExclusion, .unresolvedInclude, .frontendFailure] := by
  have hfresh : batch.IsFresh := ⟨rfl, rfl⟩
  have hleaves : batch.frontend.LeavesFiles := fun _ _ _ => rfl
  obtain ⟨hgives, hsink, -⟩ := collects_in_order hfresh hleaves batchFiles [ofString "./p.h"]
    [ofString "gone/too.h"] batchWorkspace
  refine ⟨hfresh, hleaves, ?_, ?_⟩
  · refine Eq.mp (congrArg (fun headers => PathTable.Gives _ headers _) ?_) hgives
    decide +kernel
  · refine (congrArg (fun sink => sink.pending.map Diagnostic.code) hsink).trans ?_
    decide +kernel

end Collector

end PrecompiledHeaders
