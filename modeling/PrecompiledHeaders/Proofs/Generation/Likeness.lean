import PrecompiledHeaders.Proofs.Generation.Passes
import Mathlib.Data.List.Forall2

/-!
# Passes that come to the same

What a generator holds from its past takes no part in a pass: everything is found again before it is
read. Only the ids of headers tell where a pass has begun, as a table goes on counting from the
paths that it has seen. So two generators are compared by what their ids stand for
(`PathTable.SamePath`). They are alike (`Generator.Alike`) if they know, hold and have told the same
since the pass began, whatever their tables were then. Every operation of a pass takes generators
that are alike to ones that are alike, and gives the same result (`Generator.SameResult`).

The search for the headers that all parts include, with which a pass begins, makes generators alike
that only share their project and their files (`Generator.Shares.collectGlobal`). From there on the
operations go in step, up to the end of the pass (`Generator.generate_forgets_the_past`).
-/

theorem Option.Rel.imp {α β : Type} {R S : α → β → Prop} (H : ∀ a b, R a b → S a b)
    {a : Option α} {b : Option β} (h : Option.Rel R a b) : Option.Rel S a b := by
  cases h with
  | none => exact .none
  | some hsame => exact .some (H _ _ hsame)

namespace PrecompiledHeaders

/-! ### Ids of the same path -/

/-- Whether two ids, each of its own table, stand for the same path. -/
def PathTable.SamePath (t t' : PathTable) (id id' : PathId) : Prop :=
  ∃ p, t.get? p = some id ∧ t'.get? p = some id'

namespace PathTable.SamePath

variable {t t' u u' : PathTable} {id id' other other' : PathId} {ids ids' : List PathId}

theorem mono (h : SamePath t t' id id') (hle : t ≤ u) (hle' : t' ≤ u') : SamePath u u' id id' := by
  obtain ⟨p, hp, hp'⟩ := h
  exact ⟨p, hle p id hp, hle' p id' hp'⟩

theorem mono_all (h : List.Forall₂ (SamePath t t') ids ids') (hle : t ≤ u) (hle' : t' ≤ u') :
    List.Forall₂ (SamePath u u') ids ids' := h.imp fun _ _ hsame => hsame.mono hle hle'

/-- Both tables have seen the paths now. -/
theorem ofIds (t t' : PathTable) (paths : List Path) :
    List.Forall₂ (SamePath (t.ids paths).2 (t'.ids paths).2) (t.ids paths).1 (t'.ids paths).1 := by
  induction paths generalizing t t' with
  | nil => exact .nil
  | cons p rest ih =>
    have hfirst : SamePath (t.id p).2 (t'.id p).2 (t.id p).1 (t'.id p).1 :=
      ⟨p, t.get?_id_self p, t'.get?_id_self p⟩
    exact .cons (hfirst.mono ((t.id p).2.le_ids rest) ((t'.id p).2.le_ids rest)) (ih _ _)

/-- Ids of the same paths are equal in the one table exactly if they are in the other. -/
theorem eq_iff (h : SamePath t t' id id') (hother : SamePath t t' other other') :
    id = other ↔ id' = other' := by
  obtain ⟨p, hp, hp'⟩ := h
  obtain ⟨q, hq, hq'⟩ := hother
  constructor
  · rintro rfl
    rw [get?_congr t' (normalize_eq_of_get? hp hq), hq'] at hp'
    exact (Option.some.inj hp').symm
  · rintro rfl
    rw [get?_congr t (normalize_eq_of_get? hp' hq'), hq] at hp
    exact (Option.some.inj hp).symm

theorem path_eq (h : SamePath t t' id id') : t.path id = t'.path id' := by
  obtain ⟨p, hp, hp'⟩ := h
  rw [path_of_get? hp, path_of_get? hp']

theorem mem_iff (h : SamePath t t' id id') (hids : List.Forall₂ (SamePath t t') ids ids') :
    id ∈ ids ↔ id' ∈ ids' := by
  induction hids with
  | nil => simp
  | cons hfirst _ ih => rw [List.mem_cons, List.mem_cons, h.eq_iff hfirst, ih]

theorem resolve_eq (h : List.Forall₂ (SamePath t t') ids ids') :
    t.resolve ids = t'.resolve ids' := by
  induction h with
  | nil => rfl
  | cons hfirst _ ih =>
    rw [PathTable.resolve_cons, PathTable.resolve_cons, hfirst.path_eq, ih]

/-- Ids that stand for something can be looked up. -/
theorem exists_resolve (h : List.Forall₂ (SamePath t t') ids ids') :
    ∃ paths, t.resolve ids = .ok paths := by
  refine PathTable.exists_resolve fun id hid => ?_
  induction h with
  | nil => exact absurd hid List.not_mem_nil
  | cons hfirst _ ih =>
    rcases List.mem_cons.1 hid with rfl | hid
    · exact hfirst.imp fun _ hp => hp.1
    · exact ih hid

end PathTable.SamePath

/-! ### Include sets that hold the same headers -/

open PathTable

/-- Whether two sets, each with ids of its own table, hold the same headers in the same order. -/
structure IncludeSet.Alike (t t' : PathTable) (s s' : IncludeSet) : Prop where
  coherent : s.IsCoherent
  coherent' : s'.IsCoherent
  order : List.Forall₂ (SamePath t t') s.order s'.order

namespace IncludeSet.Alike

variable {t t' u u' : PathTable} {s s' r r' : IncludeSet} {id id' : PathId}

theorem empty (t t' : PathTable) : Alike t t' .empty .empty := ⟨.empty, .empty, .nil⟩

theorem mono (h : Alike t t' s s') (hle : t ≤ u) (hle' : t' ≤ u') : Alike u u' s s' :=
  ⟨h.coherent, h.coherent', SamePath.mono_all h.order hle hle'⟩

theorem contains_eq (h : Alike t t' s s') (hid : SamePath t t' id id') :
    s.contains id = s'.contains id' := by
  rw [Bool.eq_iff_iff, h.coherent.contains_iff, h.coherent'.contains_iff]
  exact hid.mem_iff h.order

theorem insert (h : Alike t t' s s') (hid : SamePath t t' id id') :
    Alike t t' (s.insert id) (s'.insert id') := by
  refine ⟨h.coherent.insert id, h.coherent'.insert id', ?_⟩
  unfold IncludeSet.insert
  rw [← h.contains_eq hid]
  split
  · exact h.order
  · exact List.rel_append h.order (.cons hid .nil)

theorem ids (h : Alike t t' s s') (paths : List Path) :
    Alike (t.ids paths).2 (t'.ids paths).2 ((t.ids paths).1.foldl IncludeSet.insert s)
      ((t'.ids paths).1.foldl IncludeSet.insert s') :=
  List.rel_foldl (P := Alike _ _) (R := SamePath _ _) (fun _ _ hset _ _ hid => hset.insert hid)
    (h.mono (t.le_ids paths) (t'.le_ids paths)) (SamePath.ofIds t t' paths)

theorem intersect (h : Alike t t' s s') (hr : Alike t t' r r') :
    Alike t t' (s.intersect r) (s'.intersect r') := by
  have hfilter : List.Forall₂ (SamePath t t') (s.order.filter r.contains)
      (s'.order.filter r'.contains) :=
    List.rel_filter (fun _ _ hid => by simp only [hr.contains_eq hid]) h.order
  exact List.rel_foldl (P := Alike t t') (R := SamePath t t')
    (fun _ _ hset _ _ hid => hset.insert hid) (empty t t') hfilter

theorem shared {sets sets' : List IncludeSet} (h : List.Forall₂ (Alike t t') sets sets') :
    Alike t t' (Generator.shared sets) (Generator.shared sets') := by
  cases h with
  | nil => exact empty t t'
  | cons hfirst hrest =>
    exact List.rel_foldl (P := Alike t t') (R := Alike t t')
      (fun _ _ hset _ _ hother => hset.intersect hother) hfirst hrest

end IncludeSet.Alike

/-! ### Collecting -/

variable {sink sink' : DiagnosticSink}

/-- Whether two workspaces have the same files, and the same was told since their sinks were the
    given ones. -/
structure Workspace.Alike (sink sink' : DiagnosticSink) (w w' : Workspace) : Prop where
  tree : w'.tree = w.tree
  told : ∃ told, w.sink = sink.extend told ∧ w'.sink = sink'.extend told

namespace Workspace.Alike

variable {w w' : Workspace}

/-- The same diagnostics are told in both. -/
theorem extend (h : Alike sink sink' w w') (ds : List Diagnostic) :
    Alike sink sink' { w with sink := w.sink.extend ds } { w' with sink := w'.sink.extend ds } := by
  obtain ⟨told, htold, htold'⟩ := h.told
  refine ⟨h.tree, told ++ ds, ?_, ?_⟩
  · rw [htold, DiagnosticSink.extend_append]
  · rw [htold', DiagnosticSink.extend_append]

theorem withTree (h : Alike sink sink' w w') (tree : FileTree) :
    Alike sink sink' { w with tree } { w' with tree } := ⟨rfl, h.told⟩

theorem withTable (h : Alike sink sink' w w') (table table' : PathTable) :
    Alike sink sink' { w with table } { w' with table := table' } := ⟨h.tree, h.told⟩

end Workspace.Alike

/-- Whether two collectors only differ in the ids of what they have found, which are those of the
    same headers. -/
structure Collector.Alike (t t' : PathTable) (c c' : Collector) : Prop where
  eq : c' = { c with found := c'.found }
  found : IncludeSet.Alike t t' c.found c'.found

namespace Collector

variable {c c' : Collector} {w w' : Workspace} {t t' : PathTable}

theorem Alike.of_empty (t t' : PathTable) (h : c.found = .empty) : Alike t t' c c :=
  ⟨rfl, h ▸ .empty t t'⟩

theorem listing_congr {result result' : Except FrontendError Preprocessed}
    (h : result.toOption = result'.toOption) : listing result = listing result' := by
  cases result with
  | error e =>
    cases result' with
    | error e' => rfl
    | ok found' => cases h
  | ok found =>
    cases result' with
    | error e' => cases h
    | ok found' =>
      cases h
      rfl

/-- Results that are the same, or both none, bring the same headers. -/
theorem addResults_alike (h : Alike w.table w'.table c c')
    {results results' : List (Path × Except FrontendError Preprocessed)}
    (hresults : List.Forall₂ (fun r r' => r.2.toOption = r'.2.toOption) results results') :
    Alike (c.addResults w results).2.table (c'.addResults w' results').2.table
      (c.addResults w results).1 (c'.addResults w' results').1 := by
  have hlisting : (results.flatMap fun r => listing r.2) = results'.flatMap fun r => listing r.2 := by
    induction hresults with
    | nil => rfl
    | cons hfirst _ ih => rw [List.flatMap_cons, List.flatMap_cons, listing_congr hfirst, ih]
  have houtside (headers : List Path) : c'.outside headers = c.outside headers := by
    rw [h.eq]
    rfl
  rw [addResults_eq, addResults_eq, houtside, hlisting]
  refine ⟨?_, h.found.ids _⟩
  rw [h.eq]

/-- Whatever was found before, the same results are told in the same way. -/
theorem addResults_told (c c' : Collector) (hw : w.Alike sink sink' w')
    (results : List (Path × Except FrontendError Preprocessed)) :
    (c.addResults w results).2.Alike sink sink' (c'.addResults w' results).2 := by
  rw [addResults_eq, addResults_eq]
  exact (hw.extend (results.flatMap fun r => told r.1 r.2)).withTable _ _

/-- A collector that has found nothing yet finds the same headers in files for which the frontend
    lists the same. -/
theorem collect_found_alike (hc : c.found = .empty)
    (hresults : List.Forall₂ (fun r r' => r.toOption = r'.toOption)
      (c.preprocessAll w.tree c.units).1 (c.preprocessAll w'.tree c.units).1) :
    IncludeSet.Alike (c.collect w).2.table (c.collect w').2.table (c.collect w).1.found
      (c.collect w').1.found := by
  refine (addResults_alike (.of_empty _ _ hc) ?_).found
  generalize c.units = units, (c.preprocessAll w.tree c.units).1 = results,
    (c.preprocessAll w'.tree c.units).1 = results' at hresults
  -- Each unit stands beside its results.
  induction hresults generalizing units with
  | nil => simp
  | cons hfirst _ ih =>
    cases units with
    | nil => exact .nil
    | cons unit rest => exact .cons hfirst (ih rest)

/-- In the same files it also tells the same. -/
theorem collect_alike (hc : c.found = .empty) (hw : w.Alike sink sink' w') :
    IncludeSet.Alike (c.collect w).2.table (c.collect w').2.table (c.collect w).1.found
        (c.collect w').1.found ∧ (c.collect w).2.Alike sink sink' (c.collect w').2 := by
  refine ⟨collect_found_alike hc ?_, ?_⟩
  · rw [hw.tree]
    exact List.forall₂_same.2 fun _ _ => rfl
  · have hbefore := (hw.extend ((c.missingExclusions w.tree).map missingExclusion)).withTree
      (c.preprocessAll w.tree c.units).2
    simp only [collect]
    rw [hw.tree]
    exact addResults_told c c hbefore _

end Collector

/-! ### Generators -/

/-- Whether two precompiled headers, each with ids of its own table, are the same. -/
structure Artifact.Alike (t t' : PathTable) (a a' : Artifact) : Prop where
  scope : a'.scope = a.scope
  path : a'.path = a.path
  header : a'.header = a.header
  commandLine : a'.commandLine = a.commandLine
  includes : List.Forall₂ (SamePath t t') a.includes a'.includes

theorem Artifact.Alike.mono {t t' u u' : PathTable} {a a' : Artifact} (h : Alike t t' a a')
    (hle : t ≤ u) (hle' : t' ≤ u') : Alike u u' a a' :=
  { h with includes := SamePath.mono_all h.includes hle hle' }

namespace Generator

variable {g g' : Generator} {part : ProjectPart} {parts : List ProjectPart}

/-- Whether two generators have the same project, surroundings and files, and the same was told
    since their sinks were the given ones. -/
structure Shares (sink sink' : DiagnosticSink) (g g' : Generator) : Prop where
  parts : g'.parts = g.parts
  environment : g'.environment = g.environment
  frontend : g'.frontend = g.frontend
  workspace : g.workspace.Alike sink sink' g'.workspace

/-- Whether two generators that share their project also know the same about all parts, and are at
    the same stage. -/
structure Alike (sink sink' : DiagnosticSink) (g g' : Generator) : Prop where
  shares : g.Shares sink sink' g'
  stage : g'.stage = g.stage
  emitted : g'.emitted = g.emitted
  globalIncludes : Option.Rel (IncludeSet.Alike g.workspace.table g'.workspace.table)
    g.globalIncludes g'.globalIncludes
  globalArtifact : Option.Rel (Artifact.Alike g.workspace.table g'.workspace.table)
    g.globalArtifact g'.globalArtifact

/-- Whether two operations come to the same: both fail in the same way, or both give results that
    are related with respect to the tables behind them. The generators behind them are alike. -/
inductive SameResult (sink sink' : DiagnosticSink) {α : Type}
    (R : PathTable → PathTable → α → α → Prop) : Result α → Result α → Prop
  | error (e : GenerationError) {g g' : Generator} : g.Alike sink sink' g' →
    SameResult sink sink' R (.error e, g) (.error e, g')
  | ok {a a' : α} {g g' : Generator} : R g.workspace.table g'.workspace.table a a' →
    g.Alike sink sink' g' → SameResult sink sink' R (.ok a, g) (.ok a', g')

/-! ### The search for the headers that all parts include -/

namespace Shares

theorem globalCollector_eq (h : g.Shares sink sink' g') (part : ProjectPart) :
    g'.globalCollector part = g.globalCollector part := by
  simp only [globalCollector, partCollector, collector, arguments, headerAndSourcePaths,
    headerPaths, sourcePaths, h.parts, h.environment, h.frontend]

theorem addingCollector_eq (h : g.Shares sink sink' g') (part : ProjectPart)
    (excluded : List Path) :
    g'.addingCollector part excluded = g.addingCollector part excluded := by
  simp only [addingCollector, partCollector, collector, h.environment, h.frontend]

theorem collectParts (h : g.Shares sink sink' g') {w w' : Workspace}
    (hw : w.Alike sink sink' w') (parts : List ProjectPart) :
    List.Forall₂ (IncludeSet.Alike (g.collectParts w parts).2.table
          (g'.collectParts w' parts).2.table)
        (g.collectParts w parts).1 (g'.collectParts w' parts).1 ∧
      (g.collectParts w parts).2.Alike sink sink' (g'.collectParts w' parts).2 := by
  induction parts generalizing w w' with
  | nil => exact ⟨.nil, hw⟩
  | cons part rest ih =>
    by_cases hfiles : part.headerAndSourcePaths = []
    · rw [collectParts_of_no_files hfiles, collectParts_of_no_files hfiles]
      exact ih hw
    · obtain ⟨hfound, hcollect⟩ := Collector.collect_alike (c := g.globalCollector part) rfl hw
      obtain ⟨hrest, hworkspace⟩ := ih hcollect
      rw [collectParts_of_files hfiles, collectParts_of_files hfiles, h.globalCollector_eq]
      -- While the other parts are collected, the ids of the first stay what they are.
      refine ⟨.cons (hfound.mono ?_ ?_) hrest, hworkspace⟩
      · exact (g.collectParts_isKnown _ rest).1
      · exact (g'.collectParts_isKnown _ rest).1

/-- The same headers are found for all parts. -/
theorem collectGlobal_alike (h : g.Shares sink sink' g') :
    IncludeSet.Alike g.collectGlobal.2.workspace.table g'.collectGlobal.2.workspace.table
      g.collectGlobal.1 g'.collectGlobal.1 := by
  obtain ⟨hfound, -⟩ := h.collectParts h.workspace g.parts
  simp only [Generator.collectGlobal]
  rw [h.parts]
  exact .shared hfound

/-- What is known about all parts afterwards was found just now, so that it does not matter what was
    known before. -/
theorem collectGlobal (h : g.Shares sink sink' g') (hemitted : g'.emitted = g.emitted)
    (hartifact : Option.Rel (Artifact.Alike g.workspace.table g'.workspace.table)
      g.globalArtifact g'.globalArtifact) :
    IncludeSet.Alike g.collectGlobal.2.workspace.table g'.collectGlobal.2.workspace.table
        g.collectGlobal.1 g'.collectGlobal.1 ∧
      g.collectGlobal.2.Alike sink sink' g'.collectGlobal.2 := by
  have hfound := h.collectGlobal_alike
  have hle := (g.collectParts_isKnown g.workspace g.parts).1
  have hle' := (g'.collectParts_isKnown g'.workspace g'.parts).1
  refine ⟨hfound, ⟨h.parts, h.environment, h.frontend, ?_⟩, rfl, hemitted, .some hfound,
    hartifact.imp fun _ _ hsame => hsame.mono hle hle'⟩
  have hworkspace := (h.collectParts h.workspace g.parts).2
  simp only [Generator.collectGlobal]
  rw [h.parts]
  exact hworkspace

end Shares

/-! ### Operations in step -/

theorem headerText_congr {t t' : PathTable} {ids ids' : List PathId}
    (h : List.Forall₂ (SamePath t t') ids ids') : headerText t ids = headerText t' ids' := by
  rw [headerText, headerText, SamePath.resolve_eq h]

namespace Alike

theorem withWorkspace (h : g.Alike sink sink' g') {w w' : Workspace}
    (hle : g.workspace.table ≤ w.table) (hle' : g'.workspace.table ≤ w'.table)
    (hw : w.Alike sink sink' w') :
    (g.withWorkspace w).Alike sink sink' (g'.withWorkspace w') :=
  ⟨⟨h.shares.parts, h.shares.environment, h.shares.frontend, hw⟩, h.stage, h.emitted,
    h.globalIncludes.imp fun _ _ hsame => hsame.mono hle hle',
    h.globalArtifact.imp fun _ _ hsame => hsame.mono hle hle'⟩

/-- The same is written and told. -/
theorem output (h : g.Alike sink sink' g') (tree : FileTree) (ds : List Diagnostic) :
    Alike sink sink' (g.withWorkspace ⟨tree, g.workspace.table, g.workspace.sink.extend ds⟩)
      (g'.withWorkspace ⟨tree, g'.workspace.table, g'.workspace.sink.extend ds⟩) := by
  have hworkspace := (h.shares.workspace.extend ds).withTree tree
  exact h.withWorkspace (PathTable.le_refl _) (PathTable.le_refl _) hworkspace

theorem enter (h : g.Alike sink sink' g') (stage : Stage) :
    Alike sink sink' { g with stage } { g' with stage } :=
  ⟨⟨h.shares.parts, h.shares.environment, h.shares.frontend, h.shares.workspace⟩, rfl, h.emitted,
    h.globalIncludes, h.globalArtifact⟩

theorem knownGlobal (h : g.Alike sink sink' g') :
    IncludeSet.Alike g.knownGlobal.2.workspace.table g'.knownGlobal.2.workspace.table
        g.knownGlobal.1 g'.knownGlobal.1 ∧
      g.knownGlobal.2.Alike sink sink' g'.knownGlobal.2 := by
  have hcollect := h.shares.collectGlobal h.emitted h.globalArtifact
  have hincludes := h.globalIncludes
  unfold Generator.knownGlobal
  generalize g.globalIncludes = known, g'.globalIncludes = known' at hincludes
  cases hincludes with
  | none => exact hcollect
  | some hsame => exact ⟨hsame, h⟩

theorem collectPart (h : g.Alike sink sink' g') (part : ProjectPart) :
    SameResult sink sink' IncludeSet.Alike (g.collectPart part) (g'.collectPart part) := by
  obtain ⟨hincludes, hknown⟩ := h.knownGlobal
  obtain ⟨excluded, hresolve⟩ := SamePath.exists_resolve hincludes.order
  have hresolve' := (SamePath.resolve_eq hincludes.order).symm.trans hresolve
  rw [collectPart_of_resolve hresolve, collectPart_of_resolve hresolve',
    hknown.shares.addingCollector_eq]
  obtain ⟨hfound, hworkspace⟩ := Collector.collect_alike
    (c := g.knownGlobal.2.addingCollector part excluded) rfl hknown.shares.workspace
  have hcollected := hknown.withWorkspace (Collector.collect_isKnown _ _).1
    (Collector.collect_isKnown _ _).1 hworkspace
  exact .ok hfound (hcollected.enter (.partIncludesKnown part.id))

/-- Writing gives no ids. -/
theorem writeHeader (h : g.Alike sink sink' g') (p : Path) (text : Bytes) :
    SameResult sink sink' (fun t t' _ _ => t = g.workspace.table ∧ t' = g'.workspace.table)
      (g.writeHeader p text) (g'.writeHeader p text) := by
  simp only [Generator.writeHeader]
  rw [h.shares.workspace.tree]
  split
  · split
    · exact .error _ (h.output _ [])
    · exact .ok ⟨rfl, rfl⟩ (h.output _ [])
  · split
    · exact .error _ (h.output _ [])
    · split
      · exact .error _ (h.output _ [])
      · exact .ok ⟨rfl, rfl⟩ (h.output _ [])

theorem emit (h : g.Alike sink sink' g') (arguments : List String) (heading : String)
    (header : Path) :
    SameResult sink sink' (fun t t' _ _ => t = g.workspace.table ∧ t' = g'.workspace.table)
      (g.emit arguments heading header) (g'.emit arguments heading header) := by
  simp only [Generator.emit]
  rw [h.shares.environment, h.shares.frontend, h.shares.workspace.tree]
  split
  · exact .ok ⟨rfl, rfl⟩ (h.output _ [])
  · exact .error _ (h.output _ [_])

theorem writeGlobalHeader (h : g.Alike sink sink' g') :
    SameResult sink sink' (fun t t' p p' => p' = p ∧ t = g.knownGlobal.2.workspace.table ∧
      t' = g'.knownGlobal.2.workspace.table) g.writeGlobalHeader g'.writeGlobalHeader := by
  obtain ⟨hincludes, hknown⟩ := h.knownGlobal
  simp only [Generator.writeGlobalHeader, Generator.globalHeaderText]
  rw [← headerText_congr hincludes.order]
  have hfile : g'.knownGlobal.2.globalHeaderFile = g.knownGlobal.2.globalHeaderFile := by
    rw [Generator.globalHeaderFile, hknown.shares.environment, Generator.globalHeaderFile]
  cases headerText g.knownGlobal.2.workspace.table g.knownGlobal.1.order with
  | error e => exact .error _ hknown
  | ok text =>
    have hwrite := hknown.writeHeader g.knownGlobal.2.globalHeaderFile (Utf8.encode text.toList)
    simp only [Except.mapError]
    rw [hfile]
    generalize g.knownGlobal.2.writeHeader _ _ = written,
      g'.knownGlobal.2.writeHeader _ _ = written' at hwrite ⊢
    cases hwrite with
    | error e hwritten => exact .error e hwritten
    | ok htables hwritten =>
      refine .ok ⟨?_, htables⟩ hwritten
      rw [Generator.globalHeaderFile, hwritten.shares.environment, Generator.globalHeaderFile]

end Alike

/-! ### Passes in step -/

namespace Shares

theorem globalFile_eq (h : g.Shares sink sink' g') : g'.globalFile = g.globalFile := by
  simp only [globalFile, h.environment]

theorem globalEmitArguments_eq (h : g.Shares sink sink' g') :
    g'.globalEmitArguments = g.globalEmitArguments := by
  simp only [globalEmitArguments, globalHeaderFile, globalFile, arguments, h.parts, h.environment]

theorem partFile_eq (h : g.Shares sink sink' g') (part : ProjectPart) :
    g'.partFile part = g.partFile part := by
  simp only [partFile, h.environment]

theorem partHeaderFile_eq (h : g.Shares sink sink' g') (part : ProjectPart) :
    g'.partHeaderFile part = g.partHeaderFile part := by
  simp only [partHeaderFile, h.environment]

theorem partEmitArguments_eq (h : g.Shares sink sink' g') (part : ProjectPart) :
    g'.partEmitArguments part = g.partEmitArguments part := by
  simp only [partEmitArguments, partHeaderFile, partFile, globalFile, h.environment]

theorem commandLine_eq (h : g.Shares sink sink' g') (arguments : List String) :
    g'.commandLine arguments = g.commandLine arguments := by
  simp only [Generator.commandLine, h.environment]

/-- Whatever was known and held before, the precompiled header for all parts is made in the same
    way. -/
theorem makeGlobal (h : g.Shares sink sink' g') :
    SameResult sink sink' Artifact.Alike g.makeGlobal g'.makeGlobal := by
  have hbare : g.withoutGlobal.Shares sink sink' g'.withoutGlobal :=
    ⟨h.parts, h.environment, h.frontend, h.workspace⟩
  obtain ⟨hincludes, hcollected⟩ := hbare.collectGlobal rfl .none
  have hwrite := hcollected.writeGlobalHeader
  simp only [Generator.makeGlobal]
  rw [← withoutGlobal, ← withoutGlobal]
  generalize g.withoutGlobal.collectGlobal.2.writeGlobalHeader = written,
    g'.withoutGlobal.collectGlobal.2.writeGlobalHeader = written' at hwrite ⊢
  cases hwrite with
  | error e hwritten => exact .error e hwritten
  | @ok header header' written written' hheader hwritten =>
    obtain ⟨rfl, htable, htable'⟩ := hheader
    have hemit := hwritten.emit written.globalEmitArguments "global PCH" header'
    simp only
    rw [hwritten.shares.globalEmitArguments_eq]
    generalize written.emit _ _ _ = compiled, written'.emit _ _ _ = compiled' at hemit ⊢
    cases hemit with
    | error e hcompiled => exact .error e (hcompiled.enter .aborted)
    | @ok _ _ compiled compiled' htables hcompiled =>
      have hsame := hcompiled.shares
      -- Writing and compiling give no ids, so the ids are still those of the search.
      have hincludes' : IncludeSet.Alike compiled.workspace.table compiled'.workspace.table
          g.withoutGlobal.collectGlobal.1 g'.withoutGlobal.collectGlobal.1 := by
        rw [htables.1, htables.2, htable, htable']
        exact hincludes
      dsimp only
      rw [hsame.globalFile_eq, hsame.globalEmitArguments_eq, hsame.commandLine_eq]
      have hartifact : Artifact.Alike compiled.workspace.table compiled'.workspace.table
          ⟨.global, compiled.globalFile, header', compiled.commandLine compiled.globalEmitArguments,
            g.withoutGlobal.collectGlobal.1.order⟩
          ⟨.global, compiled.globalFile, header', compiled.commandLine compiled.globalEmitArguments,
            g'.withoutGlobal.collectGlobal.1.order⟩ := ⟨rfl, rfl, rfl, rfl, hincludes'.order⟩
      exact .ok hartifact ⟨⟨hsame.parts, hsame.environment, hsame.frontend, hsame.workspace⟩, rfl,
        rfl, hcompiled.globalIncludes, .some hartifact⟩

end Shares

/-- Whether two products of a part, each with ids of its own table, are the same. -/
structure SameProduct (t t' : PathTable) (made made' : Artifact × PartIncludes) : Prop where
  artifact : Artifact.Alike t t' made.1 made'.1
  part : made'.2.part = made.2.part
  includes : List.Forall₂ (SamePath t t') made.2.includes made'.2.includes

theorem SameProduct.mono {t t' u u' : PathTable} {made made' : Artifact × PartIncludes}
    (h : SameProduct t t' made made') (hle : t ≤ u) (hle' : t' ≤ u') :
    SameProduct u u' made made' :=
  ⟨h.artifact.mono hle hle', h.part, SamePath.mono_all h.includes hle hle'⟩

namespace Alike

theorem makePart (h : g.Alike sink sink' g') (part : ProjectPart) :
    SameResult sink sink' SameProduct (g.makePart part) (g'.makePart part) := by
  have hcollect := h.collectPart part
  simp only [Generator.makePart]
  rw [h.emitted]
  split
  · exact .error _ h
  generalize g.collectPart part = collected, g'.collectPart part = collected' at hcollect ⊢
  cases hcollect with
  | error e hcollected => exact .error e hcollected
  | @ok includes includes' collected collected' hincludes hcollected =>
    dsimp only
    rw [← headerText_congr hincludes.order, hcollected.shares.partHeaderFile_eq]
    split
    · exact .error _ hcollected
    · next text _ =>
      have hwrite := hcollected.writeHeader (collected.partHeaderFile part)
        (Utf8.encode text.toList)
      generalize collected.writeHeader _ _ = written,
        collected'.writeHeader _ _ = written' at hwrite ⊢
      cases hwrite with
      | error e hwritten => exact .error e hwritten
      | @ok _ _ written written' htable hwritten =>
        have hemit := hwritten.emit (written.partEmitArguments part)
          s!"project part '{part.id}'" (written.partHeaderFile part)
        dsimp only
        rw [hwritten.shares.partEmitArguments_eq, hwritten.shares.partHeaderFile_eq]
        generalize written.emit _ _ _ = compiled, written'.emit _ _ _ = compiled' at hemit ⊢
        cases hemit with
        | error e hcompiled => exact .error e hcompiled
        | @ok _ _ compiled compiled' htables hcompiled =>
          have hincludes' : IncludeSet.Alike compiled.workspace.table compiled'.workspace.table
              includes includes' := by
            rw [htables.1, htables.2, htable.1, htable.2]
            exact hincludes
          dsimp only
          rw [hcompiled.shares.partFile_eq, hcompiled.shares.partEmitArguments_eq,
            hcompiled.shares.commandLine_eq]
          exact .ok ⟨⟨rfl, rfl, rfl, rfl, hincludes'.order⟩, rfl, hincludes'.order⟩
            (hcompiled.enter (.partEmitted part.id))

theorem makeParts (h : g.Alike sink sink' g') (parts : List ProjectPart) :
    SameResult sink sink' (fun t t' => List.Forall₂ (SameProduct t t')) (g.makeParts parts)
      (g'.makeParts parts) := by
  induction parts generalizing g g' with
  | nil => exact .ok .nil h
  | cons part rest ih =>
    have hpart := h.makePart part
    simp only [Generator.makeParts]
    generalize g.makePart part = made, g'.makePart part = made' at hpart ⊢
    cases hpart with
    | error e hfailed => exact .error _ hfailed
    | @ok first first' after after' hfirst hafter =>
      have hrest := ih hafter
      have hle := (Acts.makeParts after rest).goesOn.le
      have hle' := (Acts.makeParts after' rest).goesOn.le
      dsimp only
      generalize after.makeParts rest = others, after'.makeParts rest = others'
        at hrest hle hle' ⊢
      cases hrest with
      | error e hfailed => exact .error e hfailed
      | ok hothers hlast => exact .ok (.cons (hfirst.mono hle hle') hothers) hlast

end Alike

/-! ### What shows of a pass -/

/-- Whether two lists of ids stand for the same paths, each in its own table. -/
def ListsSame (t t' : PathTable) (ids ids' : List PathId) : Prop :=
  ∃ paths, t.resolve ids = .ok paths ∧ t'.resolve ids' = .ok paths

theorem listsSame_of_samePath {t t' : PathTable} {ids ids' : List PathId}
    (h : List.Forall₂ (SamePath t t') ids ids') : ListsSame t t' ids ids' := by
  obtain ⟨paths, hpaths⟩ := SamePath.exists_resolve h
  exact ⟨paths, hpaths, (SamePath.resolve_eq h).symm.trans hpaths⟩

/-- Whether two precompiled headers are the same, but for the ids of their headers. -/
def ShowsSameArtifact (t t' : PathTable) (a a' : Artifact) : Prop :=
  ∃ includes, a' = { a with includes } ∧ ListsSame t t' a.includes includes

/-- Whether two records of what a part includes are the same, but for the ids. -/
def ShowsSameIncludes (t t' : PathTable) (r r' : PartIncludes) : Prop :=
  r'.part = r.part ∧ ListsSame t t' r.includes r'.includes

/-- Whether two generators show the same behind a pass. -/
structure ShowsSame (g g' : Generator) : Prop where
  stage : g'.stage = g.stage
  tree : g'.workspace.tree = g.workspace.tree
  globalArtifact : Option.Rel (ShowsSameArtifact g.workspace.table g'.workspace.table)
    g.takeGlobalArtifact.1 g'.takeGlobalArtifact.1
  partArtifacts : List.Forall₂ (ShowsSameArtifact g.workspace.table g'.workspace.table)
    g.takePartArtifacts.1 g'.takePartArtifacts.1
  partIncludes : List.Forall₂ (ShowsSameIncludes g.workspace.table g'.workspace.table)
    g.takePartIncludes.1 g'.takePartIncludes.1
  /-- Parts are refused by both or by none. -/
  refuses : ∀ part, g.Refuses part ↔ g'.Refuses part

theorem showsSameArtifact_of_alike {t t' : PathTable} {a a' : Artifact} (h : a.Alike t t' a') :
    ShowsSameArtifact t t' a a' := by
  refine ⟨a'.includes, ?_, listsSame_of_samePath h.includes⟩
  rw [← h.scope, ← h.path, ← h.header, ← h.commandLine]

/-- When a pass is given up, nothing is left that could differ. -/
theorem Alike.showsSame_abort (h : g.Alike sink sink' g') : g.abort.ShowsSame g'.abort where
  stage := rfl
  tree := h.shares.workspace.tree
  globalArtifact := .none
  partArtifacts := .nil
  partIncludes := .nil
  refuses part := by
    rw [refuses_iff, refuses_iff]
    rfl

theorem Alike.showsSame_done (h : g.Alike sink sink' g')
    {made made' : List (Artifact × PartIncludes)}
    (hmade : List.Forall₂ (SameProduct g.workspace.table g'.workspace.table) made made') :
    ShowsSame
      { g with
        partArtifacts := made.map Prod.fst, partIncludes := made.map Prod.snd, stage := .done }
      { g' with
        partArtifacts := made'.map Prod.fst, partIncludes := made'.map Prod.snd, stage := .done }
    where
  stage := rfl
  tree := h.shares.workspace.tree
  globalArtifact := h.globalArtifact.imp fun _ _ => showsSameArtifact_of_alike
  partArtifacts := List.forall₂_map_left_iff.2 (List.forall₂_map_right_iff.2
    (hmade.imp fun _ _ hsame => showsSameArtifact_of_alike hsame.artifact))
  partIncludes := List.forall₂_map_left_iff.2 (List.forall₂_map_right_iff.2
    (hmade.imp fun _ _ hsame => ⟨hsame.part, listsSame_of_samePath hsame.includes⟩))
  refuses part := by
    rw [refuses_iff, refuses_iff]
    exact Eq.congr_left h.emitted.symm

/-- The passes of generators that share their project come to the same: both succeed or fail in
    the same way, tell the same diagnostics, and leave the same behind. -/
theorem Shares.generate (h : g.Shares sink sink' g') :
    ∃ result told after after', g.generate = (result, after) ∧ g'.generate = (result, after') ∧
      after.ShowsSame after' ∧ after.workspace.sink = sink.extend told ∧
      after'.workspace.sink = sink'.extend told := by
  have hbare : g.withoutProducts.Shares sink sink' g'.withoutProducts :=
    ⟨h.parts, h.environment, h.frontend, h.workspace⟩
  have hglobal := hbare.makeGlobal
  simp only [Generator.generate]
  rw [← withoutProducts, ← withoutProducts]
  generalize g.withoutProducts.makeGlobal = made, g'.withoutProducts.makeGlobal = made'
    at hglobal ⊢
  cases hglobal with
  | error e hfailed =>
    obtain ⟨told, htold, htold'⟩ := hfailed.shares.workspace.told
    exact ⟨_, told, _, _, rfl, rfl, hfailed.showsSame_abort, htold, htold'⟩
  | @ok artifact artifact' started started' _ hstarted =>
    have hparts := hstarted.makeParts started.parts
    dsimp only
    rw [hstarted.shares.parts]
    generalize started.makeParts _ = done, started'.makeParts _ = done' at hparts ⊢
    cases hparts with
    | error e hfailed =>
      obtain ⟨told, htold, htold'⟩ := hfailed.shares.workspace.told
      exact ⟨_, told, _, _, rfl, rfl, hfailed.showsSame_abort, htold, htold'⟩
    | ok hmade hdone =>
      obtain ⟨told, htold, htold'⟩ := hdone.shares.workspace.told
      exact ⟨_, told, _, _, rfl, rfl, hdone.showsSame_done hmade, htold, htold'⟩

/-- A new generator for the same project, surroundings and files. Its table may have seen any
    paths, and its sink may have got any diagnostics. -/
def renewed (g : Generator) (table : PathTable) (sink : DiagnosticSink) : Generator where
  parts := g.parts
  environment := g.environment
  frontend := g.frontend
  workspace := ⟨g.workspace.tree, table, sink⟩

/-- Whatever a generator holds before, its pass comes to the same as that of a new one: it succeeds
    or fails in the same way, tells the same diagnostics, and leaves the same behind. -/
theorem generate_forgets_the_past (g : Generator) (table : PathTable) (sink : DiagnosticSink) :
    ∃ result told after after', g.generate = (result, after) ∧
      (g.renewed table sink).generate = (result, after') ∧ after.ShowsSame after' ∧
      after.workspace.sink = g.workspace.sink.extend told ∧
      after'.workspace.sink = sink.extend told :=
  Shares.generate ⟨rfl, rfl, rfl, rfl, [], rfl, rfl⟩

end Generator

end PrecompiledHeaders
