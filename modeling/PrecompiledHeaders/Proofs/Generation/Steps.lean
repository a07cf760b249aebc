import PrecompiledHeaders.Proofs.Generation.Collect
import Mathlib.Logic.Relation

/-!
# Generators at work

Operations are called on a generator in any order, and in between the files change and others hand
out ids (`Generator.Step`). Whatever is called, a generator that goes on (`Generator.GoesOn`) keeps
its project and its surroundings, and the headers that it knows all parts to include are headers of
its table (`Generator.KnowsIds`, and `Generator.KnowsGlobal` if their paths are absolute).

Operations are made of a few acts (`Generator.Act`). All but one kind of them, the search for the
headers that all parts include, build on what is known (`Generator.Build`).
-/

namespace PrecompiledHeaders.Generator

variable {g g' g'' : Generator}

/-- Whether the headers that all parts include, if they are known, are headers of the table. -/
def KnowsGlobal (g : Generator) : Prop :=
  ∀ includes, g.globalIncludes = some includes → includes.IsSound g.workspace.table

/-- Whether the ids of the headers that all parts include, if they are known, are ids of the
    table. -/
def KnowsIds (g : Generator) : Prop :=
  ∀ includes, g.globalIncludes = some includes → includes.IsKnown g.workspace.table

/-- Whether a frontend lists absolute paths for the compiler of the generator. -/
structure ListsAbsolute (g : Generator) : Prop where
  frontend : g.frontend.ListsAbsolute
  directory : g.environment.workingDirectory.isAbsolute = true

/-- What stays when operations are called on a generator. -/
structure GoesOn (g g' : Generator) : Prop where
  parts : g'.parts = g.parts
  environment : g'.environment = g.environment
  frontend : g'.frontend = g.frontend
  le : g.workspace.table ≤ g'.workspace.table
  knowsIds : g.KnowsIds → g'.KnowsIds
  knowsGlobal : g.ListsAbsolute → g.KnowsGlobal → g'.KnowsGlobal

namespace GoesOn

theorem refl (g : Generator) : GoesOn g g :=
  ⟨rfl, rfl, rfl, PathTable.le_refl _, id, fun _ => id⟩

theorem listsAbsolute (h : GoesOn g g') (hg : g.ListsAbsolute) : g'.ListsAbsolute :=
  ⟨h.frontend ▸ hg.frontend, h.environment ▸ hg.directory⟩

theorem trans (h : GoesOn g g') (h' : GoesOn g' g'') : GoesOn g g'' where
  parts := h'.parts.trans h.parts
  environment := h'.environment.trans h.environment
  frontend := h'.frontend.trans h.frontend
  le := PathTable.le_trans h.le h'.le
  knowsIds hknows := h'.knowsIds (h.knowsIds hknows)
  knowsGlobal hg hknows := h'.knowsGlobal (h.listsAbsolute hg) (h.knowsGlobal hg hknows)

/-- The generator behind an operation whose result is known. -/
theorem behind {α : Type} {operation : α × Generator} {result : α} (h : GoesOn g operation.2)
    (heq : operation = (result, g')) : GoesOn g g' := by
  rw [heq] at h
  exact h

/-- A change around the headers that are known. -/
theorem outside {table : PathTable} (h : g.workspace.table ≤ table) (tree : FileTree)
    (sink : DiagnosticSink) : GoesOn g (g.withWorkspace ⟨tree, table, sink⟩) :=
  ⟨rfl, rfl, rfl, h, fun hknows includes hsome => (hknows includes hsome).mono h,
    fun _ hknows includes hsome => (hknows includes hsome).mono h⟩

/-- What else a generator holds does not matter. -/
theorem of_eq (hparts : g'.parts = g.parts) (henvironment : g'.environment = g.environment)
    (hfrontend : g'.frontend = g.frontend) (hworkspace : g'.workspace = g.workspace)
    (hincludes : g'.globalIncludes = g.globalIncludes) : GoesOn g g' := by
  refine ⟨hparts, henvironment, hfrontend, hworkspace ▸ PathTable.le_refl _,
    fun hknows includes hsome => ?_, fun _ hknows includes hsome => ?_⟩
  · rw [hworkspace]
    exact hknows includes (hincludes ▸ hsome)
  · rw [hworkspace]
    exact hknows includes (hincludes ▸ hsome)

end GoesOn

/-! ### Collecting -/

/-- A collector for the files of a part. -/
def partCollector (g : Generator) (arguments : List String) (part : ProjectPart)
    (projectFiles excluded : List Path) : Collector :=
  (((g.collector arguments).addUnits part.headerAndSourcePaths).setProjectFiles
    projectFiles).setExcluded excluded

/-- The collector for a part when the headers that all parts include are looked for. -/
def globalCollector (g : Generator) (part : ProjectPart) : Collector :=
  g.partCollector g.arguments part g.headerAndSourcePaths []

/-- The collector for the headers that a part adds to excluded ones. -/
def addingCollector (g : Generator) (part : ProjectPart) (excluded : List Path) : Collector :=
  g.partCollector part.arguments part part.headerAndSourcePaths excluded

section

variable {workspace : Workspace} {part : ProjectPart} {parts : List ProjectPart}

theorem collectParts_of_no_files (h : part.headerAndSourcePaths = []) :
    g.collectParts workspace (part :: parts) = g.collectParts workspace parts := by
  rw [collectParts, if_pos h]

theorem collectParts_of_files (h : part.headerAndSourcePaths ≠ []) :
    g.collectParts workspace (part :: parts) =
      (((g.globalCollector part).collect workspace).1.found ::
          (g.collectParts ((g.globalCollector part).collect workspace).2 parts).1,
        (g.collectParts ((g.globalCollector part).collect workspace).2 parts).2) := by
  rw [collectParts, if_neg h]
  rfl

theorem collectPart_of_resolve {excluded : List Path}
    (h : g.knownGlobal.2.workspace.table.resolve g.knownGlobal.1.order = .ok excluded) :
    g.collectPart part =
      (.ok ((g.knownGlobal.2.addingCollector part excluded).collect
          g.knownGlobal.2.workspace).1.found,
        { g.knownGlobal.2 with
          workspace := ((g.knownGlobal.2.addingCollector part excluded).collect
            g.knownGlobal.2.workspace).2
          stage := .partIncludesKnown part.id }) := by
  rw [collectPart]
  generalize g.knownGlobal = known at h ⊢
  obtain ⟨includes, known⟩ := known
  simp only [h]
  rfl

/-- If the headers that all parts include are known, a part is collected with these excluded. -/
theorem collectPart_of_known {includes : IncludeSet} {excluded : List Path}
    (hsome : g.globalIncludes = some includes)
    (h : g.workspace.table.resolve includes.order = .ok excluded) :
    g.collectPart part =
      (.ok ((g.addingCollector part excluded).collect g.workspace).1.found,
        { g with
          workspace := ((g.addingCollector part excluded).collect g.workspace).2
          stage := .partIncludesKnown part.id }) := by
  have hknown : g.knownGlobal = (includes, g) := by rw [knownGlobal, hsome]
  have hcollect : g.collectPart part = _ := collectPart_of_resolve (by rwa [hknown])
  rwa [hknown] at hcollect

theorem collectPart_of_unresolved {e : UnresolvedPath}
    (h : g.knownGlobal.2.workspace.table.resolve g.knownGlobal.1.order = .error e) :
    g.collectPart part = (.error (.unresolved e), g.knownGlobal.2) := by
  rw [collectPart]
  generalize g.knownGlobal = known at h ⊢
  obtain ⟨includes, known⟩ := known
  simp only [h]

end

theorem collectParts_isSound (hg : g.ListsAbsolute) (workspace : Workspace)
    (parts : List ProjectPart) :
    workspace.table ≤ (g.collectParts workspace parts).2.table ∧
      ∀ s ∈ (g.collectParts workspace parts).1,
        s.IsSound (g.collectParts workspace parts).2.table := by
  induction parts generalizing workspace with
  | nil => exact ⟨PathTable.le_refl _, fun s hs => absurd hs List.not_mem_nil⟩
  | cons part rest ih =>
    by_cases hfiles : part.headerAndSourcePaths = []
    · rw [collectParts_of_no_files hfiles]
      exact ih workspace
    · have htakes := (Collector.collect_takes (c := g.globalCollector part) hg.frontend
        hg.directory workspace).2
      obtain ⟨hle, hsound⟩ := ih ((g.globalCollector part).collect workspace).2
      rw [collectParts_of_files hfiles]
      refine ⟨PathTable.le_trans htakes.le hle, fun s hs => ?_⟩
      rcases List.mem_cons.1 hs with rfl | hs
      · exact (htakes.sound (.empty _)).mono hle
      · exact hsound s hs

/-- Whatever paths a frontend lists, the ids of what is found are in the table. -/
theorem collectParts_isKnown (g : Generator) (workspace : Workspace) (parts : List ProjectPart) :
    workspace.table ≤ (g.collectParts workspace parts).2.table ∧
      ∀ s ∈ (g.collectParts workspace parts).1,
        s.IsKnown (g.collectParts workspace parts).2.table := by
  induction parts generalizing workspace with
  | nil => exact ⟨PathTable.le_refl _, fun s hs => absurd hs List.not_mem_nil⟩
  | cons part rest ih =>
    by_cases hfiles : part.headerAndSourcePaths = []
    · rw [collectParts_of_no_files hfiles]
      exact ih workspace
    · obtain ⟨hle, hknown⟩ := (g.globalCollector part).collect_isKnown workspace
      obtain ⟨hle', hrest⟩ := ih ((g.globalCollector part).collect workspace).2
      rw [collectParts_of_files hfiles]
      refine ⟨PathTable.le_trans hle hle', fun s hs => ?_⟩
      rcases List.mem_cons.1 hs with rfl | hs
      · exact (hknown (.empty _)).mono hle'
      · exact hrest s hs

theorem collectGlobal_isKnown (g : Generator) :
    g.collectGlobal.1.IsKnown g.collectGlobal.2.workspace.table :=
  .shared (g.collectParts_isKnown g.workspace g.parts).2

/-- The headers that all parts include, as they have just been found. -/
theorem collectGlobal_isSound (hg : g.ListsAbsolute) :
    g.collectGlobal.1.IsSound g.collectGlobal.2.workspace.table :=
  .shared (g.collectParts_isSound hg g.workspace g.parts).2

theorem knownGlobal_isSound (hg : g.ListsAbsolute) (hknows : g.KnowsGlobal) :
    g.knownGlobal.1.IsSound g.knownGlobal.2.workspace.table := by
  unfold knownGlobal
  split
  · next includes hsome => exact hknows includes hsome
  · exact collectGlobal_isSound hg

/-! ### Writing -/

theorem writeHeader_eq (g : Generator) (p : Path) (text : Bytes) : ∃ tree,
    (g.writeHeader p text).2 = g.withWorkspace { g.workspace with tree } := by
  simp only [writeHeader]
  split
  · split <;> exact ⟨_, rfl⟩
  · split
    · exact ⟨_, rfl⟩
    · split <;> exact ⟨_, rfl⟩

theorem emit_eq (g : Generator) (arguments : List String) (heading : String) (header : Path) :
    ∃ tree sink, (g.emit arguments heading header).2 =
      g.withWorkspace ⟨tree, g.workspace.table, sink⟩ := by
  simp only [emit]
  split <;> exact ⟨_, _, rfl⟩

/-! ### What operations are made of -/

/-- What an operation does at once. -/
inductive Act : Generator → Generator → Prop
  | collectGlobal (g : Generator) : Act g g.collectGlobal.2
  /-- The headers that a part adds to excluded ones are collected. -/
  | collectAdding (g : Generator) (part : ProjectPart) (excluded : List Path) : Act g
      { g with
        workspace := ((g.addingCollector part excluded).collect g.workspace).2
        stage := .partIncludesKnown part.id }
  /-- Something is written, or diagnosed. -/
  | output (g : Generator) (tree : FileTree) (sink : DiagnosticSink) :
    Act g (g.withWorkspace ⟨tree, g.workspace.table, sink⟩)
  | enter (g : Generator) (stage : Stage) : Act g { g with stage }

/-- What an operation does one after the other. -/
abbrev Acts : Generator → Generator → Prop := Relation.ReflTransGen Act

theorem Act.goesOn (h : Act g g') : GoesOn g g' := by
  cases h with
  | collectGlobal =>
    refine ⟨rfl, rfl, rfl, (g.collectParts_isKnown g.workspace g.parts).1,
      fun _ includes hsome => ?_, fun hg _ includes hsome => ?_⟩
    · cases hsome
      exact g.collectGlobal_isKnown
    · cases hsome
      exact collectGlobal_isSound hg
  | collectAdding part excluded =>
    -- The headers of the part get new ids, while the set that is known stays the same.
    have hle := ((g.addingCollector part excluded).collect_isKnown g.workspace).1
    exact ⟨rfl, rfl, rfl, hle, fun hknows includes hsome => (hknows includes hsome).mono hle,
      fun _ hknows includes hsome => (hknows includes hsome).mono hle⟩
  | output tree sink => exact .outside (PathTable.le_refl _) tree sink
  | enter stage => exact .of_eq rfl rfl rfl rfl rfl

namespace Acts

theorem trans (h : Acts g g') (h' : Acts g' g'') : Acts g g'' :=
  Relation.ReflTransGen.trans h h'

theorem goesOn (h : Acts g g') : GoesOn g g' := by
  induction h with
  | refl => exact .refl g
  | tail _ hact ih => exact ih.trans hact.goesOn

/-- The generator behind an operation whose result is known. -/
theorem behind {α : Type} {operation : α × Generator} {result : α} (h : Acts g operation.2)
    (heq : operation = (result, g')) : Acts g g' := by
  rw [heq] at h
  exact h

theorem enter (g : Generator) (stage : Stage) : Acts g { g with stage } :=
  .single (.enter g stage)

theorem collectGlobal (g : Generator) : Acts g g.collectGlobal.2 :=
  .single (.collectGlobal g)

end Acts

/-! ### Building on what is known -/

/-- What an operation does at once that builds on the headers that all parts include: these are
    looked for only if they are not known, and only what stands on a precompiled header for all parts
    is finished. -/
inductive Build : Generator → Generator → Prop
  | knownGlobal (g : Generator) : Build g g.knownGlobal.2
  /-- The headers that a part adds to excluded ones are collected. -/
  | collectAdding (g : Generator) (part : ProjectPart) (excluded : List Path) : Build g
      { g with
        workspace := ((g.addingCollector part excluded).collect g.workspace).2
        stage := .partIncludesKnown part.id }
  /-- Something is written, or diagnosed. -/
  | output (g : Generator) (tree : FileTree) (sink : DiagnosticSink) :
    Build g (g.withWorkspace ⟨tree, g.workspace.table, sink⟩)
  | finish (g : Generator) (part : ProjectPart) : g.emitted = true →
    Build g { g with stage := .partEmitted part.id }

/-- What an operation that builds on what is known does one after the other. -/
abbrev Builds : Generator → Generator → Prop := Relation.ReflTransGen Build

theorem Build.acts (h : Build g g') : Acts g g' := by
  cases h with
  | knownGlobal =>
    unfold Generator.knownGlobal
    split
    · exact .refl
    · exact .collectGlobal g
  | collectAdding part excluded => exact .single (.collectAdding g part excluded)
  | output tree sink => exact .single (.output g tree sink)
  | finish part hemitted => exact .enter g _

theorem Build.emitted (h : Build g g') : g'.emitted = g.emitted := by
  cases h with
  | knownGlobal =>
    unfold Generator.knownGlobal
    split <;> rfl
  | collectAdding part excluded => rfl
  | output tree sink => rfl
  | finish part hemitted => rfl

namespace Builds

theorem trans (h : Builds g g') (h' : Builds g' g'') : Builds g g'' :=
  Relation.ReflTransGen.trans h h'

theorem acts (h : Builds g g') : Acts g g' := by
  induction h with
  | refl => exact .refl
  | tail _ hbuild ih => exact ih.trans hbuild.acts

theorem emitted (h : Builds g g') : g'.emitted = g.emitted := by
  induction h with
  | refl => rfl
  | tail _ hbuild ih => exact hbuild.emitted.trans ih

/-- The generator behind an operation whose result is known. -/
theorem behind {α : Type} {operation : α × Generator} {result : α} (h : Builds g operation.2)
    (heq : operation = (result, g')) : Builds g g' := by
  rw [heq] at h
  exact h

theorem knownGlobal (g : Generator) : Builds g g.knownGlobal.2 := .single (.knownGlobal g)

theorem collectPart (g : Generator) (part : ProjectPart) : Builds g (g.collectPart part).2 := by
  have hknown := knownGlobal g
  cases hresolve : g.knownGlobal.2.workspace.table.resolve g.knownGlobal.1.order with
  | error e =>
    rw [collectPart_of_unresolved hresolve]
    exact hknown
  | ok excluded =>
    rw [collectPart_of_resolve hresolve]
    exact hknown.tail (.collectAdding _ part excluded)

theorem writeHeader (g : Generator) (p : Path) (text : Bytes) :
    Builds g (g.writeHeader p text).2 := by
  obtain ⟨tree, heq⟩ := g.writeHeader_eq p text
  rw [heq]
  exact .single (.output g tree _)

theorem emit (g : Generator) (arguments : List String) (heading : String) (header : Path) :
    Builds g (g.emit arguments heading header).2 := by
  obtain ⟨tree, sink, heq⟩ := g.emit_eq arguments heading header
  rw [heq]
  exact .single (.output g tree sink)

theorem globalHeaderText (g : Generator) : Builds g g.globalHeaderText.2 := knownGlobal g

theorem writeGlobalHeader (g : Generator) : Builds g g.writeGlobalHeader.2 := by
  have htext := globalHeaderText g
  unfold Generator.writeGlobalHeader
  split
  · next h => exact htext.behind h
  · next text known h =>
    have hwrite := (htext.behind h).trans
      (writeHeader known known.globalHeaderFile (Utf8.encode text.toList))
    split
    · next h' => exact hwrite.behind h'
    · next h' => exact hwrite.behind h'

theorem makePart (g : Generator) (part : ProjectPart) : Builds g (g.makePart part).2 := by
  -- The pass may end behind each of its operations, so each way out has its own chain of them.
  have hcollect := collectPart g part
  simp only [Generator.makePart]
  split
  · exact .refl
  next hemitted =>
  split
  · next h => exact hcollect.behind h
  · next includes collected h =>
    have hcollected := hcollect.behind h
    split
    · exact hcollected
    · next text _ =>
      have hwrite := hcollected.trans
        (writeHeader collected (collected.partHeaderFile part) (Utf8.encode text.toList))
      split
      · next h' => exact hwrite.behind h'
      · next written h' =>
        have hemit := (hwrite.behind h').trans (emit written (written.partEmitArguments part)
          s!"project part '{part.id}'" (written.partHeaderFile part))
        split
        · next h'' => exact hemit.behind h''
        · next compiled h'' =>
          have hcompiled := hemit.behind h''
          exact hcompiled.tail (.finish compiled part (hcompiled.emitted.trans (by simpa using hemitted)))

theorem makeParts (g : Generator) (parts : List ProjectPart) : Builds g (g.makeParts parts).2 := by
  induction parts generalizing g with
  | nil => exact .refl
  | cons part rest ih =>
    have hpart := makePart g part
    simp only [Generator.makeParts]
    split
    · next h => exact hpart.behind h
    · next made after h =>
      have hrest := (hpart.behind h).trans (ih after)
      split
      · next h' => exact hrest.behind h'
      · next h' => exact hrest.behind h'

end Builds

namespace Acts

theorem knownGlobal (g : Generator) : Acts g g.knownGlobal.2 := (Builds.knownGlobal g).acts

theorem collectPart (g : Generator) (part : ProjectPart) : Acts g (g.collectPart part).2 :=
  (Builds.collectPart g part).acts

theorem writeHeader (g : Generator) (p : Path) (text : Bytes) :
    Acts g (g.writeHeader p text).2 := (Builds.writeHeader g p text).acts

theorem emit (g : Generator) (arguments : List String) (heading : String) (header : Path) :
    Acts g (g.emit arguments heading header).2 := (Builds.emit g arguments heading header).acts

theorem globalHeaderText (g : Generator) : Acts g g.globalHeaderText.2 := knownGlobal g

theorem writeGlobalHeader (g : Generator) : Acts g g.writeGlobalHeader.2 :=
  (Builds.writeGlobalHeader g).acts

theorem makePart (g : Generator) (part : ProjectPart) : Acts g (g.makePart part).2 :=
  (Builds.makePart g part).acts

theorem makeParts (g : Generator) (parts : List ProjectPart) : Acts g (g.makeParts parts).2 :=
  (Builds.makeParts g parts).acts

end Acts

/-! ### Passes -/

namespace GoesOn

theorem makeGlobal (g : Generator) : GoesOn g g.makeGlobal.2 := by
  have hbare : GoesOn g { g with globalArtifact := none, emitted := false } :=
    of_eq rfl rfl rfl rfl rfl
  -- Once the headers are collected, only files, diagnostics and the stage change.
  have hwrite := hbare.trans ((Acts.collectGlobal _).trans (.writeGlobalHeader _)).goesOn
  simp only [Generator.makeGlobal]
  split
  · next h => exact hwrite.behind h
  · next header written h =>
    have hemit := (hwrite.behind h).trans
      (Acts.emit written written.globalEmitArguments "global PCH" header).goesOn
    split
    · next h' => exact (hemit.behind h').trans (of_eq rfl rfl rfl rfl rfl)
    · next h' => exact (hemit.behind h').trans (of_eq rfl rfl rfl rfl rfl)

theorem generate (g : Generator) : GoesOn g g.generate.2 := by
  have hbare : GoesOn g { g with partArtifacts := [], partIncludes := [] } :=
    of_eq rfl rfl rfl rfl rfl
  have hglobal := hbare.trans (makeGlobal _)
  simp only [Generator.generate]
  split
  · next h => exact (hglobal.behind h).trans (of_eq rfl rfl rfl rfl rfl)
  · next made h =>
    have hparts := (hglobal.behind h).trans (Acts.makeParts made made.parts).goesOn
    split
    · next h' => exact (hparts.behind h').trans (of_eq rfl rfl rfl rfl rfl)
    · next h' => exact (hparts.behind h').trans (of_eq rfl rfl rfl rfl rfl)

end GoesOn

/-! ### Steps -/

/-- A call of an operation, or a change around a generator. -/
inductive Step : Generator → Generator → Prop
  | collectGlobal (g : Generator) : Step g g.collectGlobal.2
  | collectPart (g : Generator) (part : ProjectPart) : Step g (g.collectPart part).2
  | globalHeaderText (g : Generator) : Step g g.globalHeaderText.2
  | writeGlobalHeader (g : Generator) : Step g g.writeGlobalHeader.2
  | writeHeader (g : Generator) (p : Path) (text : Bytes) : Step g (g.writeHeader p text).2
  | makeGlobal (g : Generator) : Step g g.makeGlobal.2
  | makePart (g : Generator) (part : ProjectPart) : Step g (g.makePart part).2
  | generate (g : Generator) : Step g g.generate.2
  | takePartArtifacts (g : Generator) : Step g g.takePartArtifacts.2
  | takePartIncludes (g : Generator) : Step g g.takePartIncludes.2
  | takeGlobalArtifact (g : Generator) : Step g g.takeGlobalArtifact.2
  /-- The files change, ids are given to more paths, diagnostics are added or taken. -/
  | outside (g : Generator) (tree : FileTree) {table : PathTable} (sink : DiagnosticSink) :
    g.workspace.table ≤ table → Step g (g.withWorkspace ⟨tree, table, sink⟩)

/-- Whether a generator comes from another by some steps. -/
abbrev Steps : Generator → Generator → Prop := Relation.ReflTransGen Step

theorem Step.goesOn (h : Step g g') : GoesOn g g' := by
  cases h with
  | collectGlobal => exact (Acts.collectGlobal g).goesOn
  | collectPart part => exact (Acts.collectPart g part).goesOn
  | globalHeaderText => exact (Acts.globalHeaderText g).goesOn
  | writeGlobalHeader => exact (Acts.writeGlobalHeader g).goesOn
  | writeHeader p text => exact (Acts.writeHeader g p text).goesOn
  | makeGlobal => exact .makeGlobal g
  | makePart part => exact (Acts.makePart g part).goesOn
  | generate => exact .generate g
  | takePartArtifacts => exact .of_eq rfl rfl rfl rfl rfl
  | takePartIncludes => exact .of_eq rfl rfl rfl rfl rfl
  | takeGlobalArtifact => exact .of_eq rfl rfl rfl rfl rfl
  | outside tree sink hle => exact .outside hle tree sink

theorem Steps.goesOn (h : Steps g g') : GoesOn g g' := by
  induction h with
  | refl => exact .refl g
  | tail _ hstep ih => exact ih.trans hstep.goesOn

end PrecompiledHeaders.Generator
