import PrecompiledHeaders.Proofs.Generation.Steps
import Mathlib.Data.List.Forall2

/-!
# Passes

A pass makes the precompiled header for all parts and then one for each part
(`Generator.generate`). Its steps change the files, the ids, the diagnostics and what is known of
the project, while what was made before stays as it is (`Generator.Proceeds`). So a pass ends in one
of two ways, whatever was done before and however the frontend behaves
(`Generator.generate_all_or_nothing`):

* everything is there, one precompiled header for each part (`Generator.IsComplete`);
* nothing is kept, and no part can be made until there is a precompiled header for all parts again
  (`Generator.IsGivenUp`).
-/

namespace PrecompiledHeaders.Generator

variable {g g' g'' : Generator} {part : ProjectPart} {e : GenerationError}

/-! ### What the steps of a pass leave alone -/

/-- Whether the steps of a pass lead from one generator to another. What was made stays. -/
def Proceeds (g g' : Generator) : Prop :=
  ∃ workspace stage globalIncludes, g' = { g with workspace, stage, globalIncludes }

namespace Proceeds

theorem refl (g : Generator) : Proceeds g g := ⟨_, _, _, rfl⟩

theorem trans (h : Proceeds g g') (h' : Proceeds g' g'') : Proceeds g g'' := by
  obtain ⟨_, _, _, rfl⟩ := h
  obtain ⟨_, _, _, rfl⟩ := h'
  exact ⟨_, _, _, rfl⟩

end Proceeds

theorem Act.proceeds (h : Act g g') : Proceeds g g' := by
  cases h <;> exact ⟨_, _, _, rfl⟩

theorem Acts.proceeds (h : Acts g g') : Proceeds g g' := by
  induction h with
  | refl => exact .refl g
  | tail _ hact ih => exact ih.trans hact.proceeds

/-! ### Steps that fail -/

/-- Collecting for a part only fails over headers that all parts include. -/
theorem exists_unresolved_of_collectPart (h : g.collectPart part = (.error e, g')) :
    ∃ cause, e = .unresolved cause := by
  cases hresolve : g.knownGlobal.2.workspace.table.resolve g.knownGlobal.1.order with
  | error cause =>
    rw [collectPart_of_unresolved hresolve] at h
    cases h
    exact ⟨cause, rfl⟩
  | ok excluded =>
    rw [collectPart_of_resolve hresolve] at h
    cases h

theorem exists_unwritable_of_writeHeader {p : Path} {text : Bytes}
    (h : g.writeHeader p text = (.error e, g')) : ∃ q reason, e = .unwritable q reason := by
  simp only [writeHeader] at h
  split at h
  · split at h
    · cases h
      exact ⟨_, _, rfl⟩
    · cases h
  · split at h
    · cases h
      exact ⟨_, _, rfl⟩
    · split at h
      · cases h
        exact ⟨_, _, rfl⟩
      · cases h

/-- An emission fails over the compiler, and that is diagnosed. -/
theorem emit_eq_error {arguments : List String} {heading : String} {header : Path}
    (h : g.emit arguments heading header = (.error e, g')) : ∃ cause tree,
      g.frontend.compile g.workspace.tree
        ⟨g.environment.compiler, arguments, g.environment.workingDirectory⟩ = (.error cause, tree) ∧
      e = .frontend cause ∧ g' = g.withWorkspace (Workspace.emit { g.workspace with tree }
        (Diagnostic.error .emissionFailed (heading ++ ": " ++ cause.message) header)) := by
  simp only [emit] at h
  split at h
  · cases h
  · next cause tree hcompile =>
    cases h
    exact ⟨cause, tree, hcompile, rfl, rfl⟩

/-! ### The precompiled header for all parts -/

/-- The generator before the precompiled header for all parts is made. -/
def withoutGlobal (g : Generator) : Generator :=
  { g with globalArtifact := none, emitted := false }

/-- The precompiled header for all parts, with the headers that it includes. -/
def globalProduct (g : Generator) (includes : IncludeSet) : Artifact where
  scope := .global
  path := g.globalFile
  header := g.globalHeaderFile
  commandLine := g.commandLine g.globalEmitArguments
  includes := includes.order

theorem writeGlobalHeader_eq_ok {header : Path} (h : g.writeGlobalHeader = (.ok header, g')) :
    ∃ text, headerText g.knownGlobal.2.workspace.table g.knownGlobal.1.order = .ok text ∧
      g.knownGlobal.2.writeHeader g.globalHeaderFile (Utf8.encode text.toList) = (.ok (), g') ∧
      header = g.globalHeaderFile := by
  obtain ⟨workspace, stage, globalIncludes, hknown⟩ := (Acts.knownGlobal g).proceeds
  simp only [writeGlobalHeader, globalHeaderText] at h
  rw [hknown] at h ⊢
  split at h
  · cases h
  · next text known htext =>
    obtain ⟨htext, rfl⟩ := Prod.mk.inj htext
    split at h
    · cases h
    · next hwrite =>
      obtain ⟨_, _, _, rfl⟩ := ((Acts.writeHeader _ _ _).behind hwrite).proceeds
      cases h
      refine ⟨text, ?_, hwrite, rfl⟩
      cases hresult : headerText workspace.table g.knownGlobal.1.order with
      | error e =>
        rw [hresult] at htext
        cases htext
      | ok text' =>
        rw [hresult] at htext
        cases htext
        rfl

theorem makeGlobal_eq_ok {artifact : Artifact} (h : g.makeGlobal = (.ok artifact, g')) :
    ∃ text written compiled,
      headerText g.withoutGlobal.collectGlobal.2.workspace.table
        g.withoutGlobal.collectGlobal.1.order = .ok text ∧
      g.withoutGlobal.collectGlobal.2.writeHeader g.globalHeaderFile
        (Utf8.encode text.toList) = (.ok (), written) ∧
      written.emit g.globalEmitArguments "global PCH" g.globalHeaderFile = (.ok (), compiled) ∧
      artifact = g.globalProduct g.withoutGlobal.collectGlobal.1 ∧
      g' = { compiled with
        globalArtifact := some artifact, emitted := true, stage := .globalEmitted } := by
  have hheader := (Acts.collectGlobal g.withoutGlobal).trans (.writeGlobalHeader _)
  simp only [makeGlobal] at h
  split at h
  · cases h
  · next header written hwrite =>
    obtain ⟨text, htext, hwrote, rfl⟩ := writeGlobalHeader_eq_ok hwrite
    obtain ⟨workspace, stage, globalIncludes, rfl⟩ := (hheader.behind hwrite).proceeds
    split at h
    · cases h
    · next compiled hemit =>
      obtain ⟨_, _, _, rfl⟩ := ((Acts.emit _ _ _ _).behind hemit).proceeds
      cases h
      exact ⟨text, _, _, htext, hwrote, hemit, rfl, rfl⟩

/-- With the header file written, all depends on whether it can be compiled. -/
theorem makeGlobal_of_write {text : String} {written : Generator}
    (htext : headerText g.withoutGlobal.collectGlobal.2.workspace.table
      g.withoutGlobal.collectGlobal.1.order = .ok text)
    (hwrite : g.withoutGlobal.collectGlobal.2.writeHeader g.globalHeaderFile
      (Utf8.encode text.toList) = (.ok (), written)) :
    g.makeGlobal =
      match written.emit g.globalEmitArguments "global PCH" g.globalHeaderFile with
      | (.error e, failed) => (.error e, { failed with stage := .aborted })
      | (.ok (), compiled) => (.ok (g.globalProduct g.withoutGlobal.collectGlobal.1),
        { compiled with
          globalArtifact := some (g.globalProduct g.withoutGlobal.collectGlobal.1)
          emitted := true
          stage := .globalEmitted }) := by
  have hheader : g.withoutGlobal.collectGlobal.2.writeGlobalHeader =
      (.ok g.globalHeaderFile, written) := by
    have hknown : g.withoutGlobal.collectGlobal.2.knownGlobal = g.withoutGlobal.collectGlobal := rfl
    have hfile : g.withoutGlobal.collectGlobal.2.globalHeaderFile = g.globalHeaderFile := rfl
    simp only [writeGlobalHeader, globalHeaderText, hknown, htext, Except.mapError, hfile, hwrite]
    obtain ⟨_, _, _, rfl⟩ := ((Acts.writeHeader _ _ _).behind hwrite).proceeds
    rfl
  obtain ⟨_, _, _, hwritten⟩ := ((Acts.writeHeader _ _ _).behind hwrite).proceeds
  have harguments : written.globalEmitArguments = g.globalEmitArguments := by
    rw [hwritten]
    rfl
  simp only [makeGlobal]
  rw [← withoutGlobal, hheader]
  simp only [harguments]
  cases hemit : written.emit g.globalEmitArguments "global PCH" g.globalHeaderFile with
  | mk result compiled =>
    cases result with
    | error e => rfl
    | ok done =>
      obtain ⟨_, _, _, hcompiled⟩ := ((Acts.emit _ _ _ _).behind hemit).proceeds
      dsimp only
      rw [hcompiled, hwritten]
      rfl

/-- With the header file written and compiled, the precompiled header for all parts is made. -/
theorem makeGlobal_of_emit {text : String} {written compiled : Generator}
    (htext : headerText g.withoutGlobal.collectGlobal.2.workspace.table
      g.withoutGlobal.collectGlobal.1.order = .ok text)
    (hwrite : g.withoutGlobal.collectGlobal.2.writeHeader g.globalHeaderFile
      (Utf8.encode text.toList) = (.ok (), written))
    (hemit : written.emit g.globalEmitArguments "global PCH" g.globalHeaderFile =
      (.ok (), compiled)) :
    g.makeGlobal = (.ok (g.globalProduct g.withoutGlobal.collectGlobal.1),
      { compiled with
        globalArtifact := some (g.globalProduct g.withoutGlobal.collectGlobal.1)
        emitted := true
        stage := .globalEmitted }) := by
  rw [makeGlobal_of_write htext hwrite, hemit]

/-- If the precompiled header for all parts cannot be made, the headers for it are known
    nevertheless. -/
theorem exists_builds_of_makeGlobal (h : g.makeGlobal = (.error e, g')) :
    ∃ failed, Builds g.withoutGlobal.collectGlobal.2 failed ∧
      (g' = failed ∨ g' = { failed with stage := .aborted }) := by
  have hheader := Builds.writeGlobalHeader g.withoutGlobal.collectGlobal.2
  simp only [makeGlobal] at h
  split at h
  · next hwrite =>
    cases h
    exact ⟨_, hheader.behind hwrite, .inl rfl⟩
  · next header written hwrite =>
    have hcompile := (hheader.behind hwrite).trans
      (.emit written written.globalEmitArguments "global PCH" header)
    split at h
    · next failed hemit =>
      cases h
      exact ⟨failed, hcompile.behind hemit, .inr rfl⟩
    · cases h

theorem makeGlobal_eq_error (h : g.makeGlobal = (.error e, g')) :
    Proceeds g.withoutGlobal g' := by
  obtain ⟨failed, hbuilds, hfailed⟩ := exists_builds_of_makeGlobal h
  have hacts := (Acts.collectGlobal g.withoutGlobal).trans hbuilds.acts
  rcases hfailed with rfl | rfl
  · exact hacts.proceeds
  · exact (hacts.trans (.enter _ _)).proceeds

/-! ### The precompiled header for a part -/

/-- The precompiled header for a part, with the headers that it adds. -/
def partProduct (g : Generator) (part : ProjectPart) (includes : IncludeSet) :
    Artifact × PartIncludes :=
  ({ scope := .part part.id
     path := g.partFile part
     header := g.partHeaderFile part
     commandLine := g.commandLine (g.partEmitArguments part)
     includes := includes.order }, ⟨part.id, includes.order⟩)

theorem makePart_eq_ok {made : Artifact × PartIncludes}
    (h : g.makePart part = (.ok made, g')) :
    ∃ includes collected text written compiled,
      g.collectPart part = (.ok includes, collected) ∧
      headerText collected.workspace.table includes.order = .ok text ∧
      collected.writeHeader (g.partHeaderFile part) (Utf8.encode text.toList) =
        (.ok (), written) ∧
      written.emit (g.partEmitArguments part) s!"project part '{part.id}'"
        (g.partHeaderFile part) = (.ok (), compiled) ∧
      made = g.partProduct part includes ∧
      g' = { compiled with stage := .partEmitted part.id } := by
  simp only [makePart] at h
  split at h
  · cases h
  split at h
  · cases h
  · next includes collected hcollect =>
    obtain ⟨_, _, _, rfl⟩ := ((Acts.collectPart g part).behind hcollect).proceeds
    split at h
    · cases h
    · next text htext =>
      split at h
      · cases h
      · next written hwrite =>
        obtain ⟨_, _, _, rfl⟩ := ((Acts.writeHeader _ _ _).behind hwrite).proceeds
        split at h
        · cases h
        · next compiled hemit =>
          obtain ⟨_, _, _, rfl⟩ := ((Acts.emit _ _ _ _).behind hemit).proceeds
          cases h
          exact ⟨includes, _, text, _, _, hcollect, htext, hwrite, hemit, rfl, rfl⟩

/-- Why a part is not made: there is no precompiled header for all parts, the ids of some headers lead
    nowhere, the header file cannot be written, or it cannot be compiled. -/
theorem makePart_eq_error (h : g.makePart part = (.error e, g')) :
    g.emitted = false ∧ e = .globalMissing part.id ∨ (∃ cause, e = .unresolved cause) ∨
      (∃ q reason, e = .unwritable q reason) ∨
      ∃ includes collected text written, g.collectPart part = (.ok includes, collected) ∧
        headerText collected.workspace.table includes.order = .ok text ∧
        collected.writeHeader (g.partHeaderFile part) (Utf8.encode text.toList) =
          (.ok (), written) ∧
        written.emit (g.partEmitArguments part) s!"project part '{part.id}'"
          (g.partHeaderFile part) = (.error e, g') := by
  simp only [makePart] at h
  split at h
  · next hemitted =>
    cases h
    exact .inl ⟨by simpa using hemitted, rfl⟩
  refine .inr ?_
  split at h
  · next hcollect =>
    cases h
    exact .inl (exists_unresolved_of_collectPart hcollect)
  · next includes collected hcollect =>
    obtain ⟨_, _, _, rfl⟩ := ((Acts.collectPart g part).behind hcollect).proceeds
    split at h
    · next cause htext =>
      cases h
      exact .inl ⟨cause, rfl⟩
    · next text htext =>
      refine .inr ?_
      split at h
      · next hwrite =>
        cases h
        exact .inl (exists_unwritable_of_writeHeader hwrite)
      · next written hwrite =>
        obtain ⟨_, _, _, rfl⟩ := ((Acts.writeHeader _ _ _).behind hwrite).proceeds
        split at h
        · next failed hemit =>
          cases h
          exact .inr ⟨includes, _, text, _, hcollect, htext, hwrite, hemit⟩
        · cases h

/-- With its headers collected and the header file written, all depends on whether that can be
    compiled. -/
theorem makePart_of_write {includes : IncludeSet} {text : String} {collected written : Generator}
    (hemitted : g.emitted = true) (hcollect : g.collectPart part = (.ok includes, collected))
    (htext : headerText collected.workspace.table includes.order = .ok text)
    (hwrite : collected.writeHeader (g.partHeaderFile part) (Utf8.encode text.toList) =
      (.ok (), written)) :
    g.makePart part =
      match written.emit (g.partEmitArguments part) s!"project part '{part.id}'"
        (g.partHeaderFile part) with
      | (.error e, failed) => (.error e, failed)
      | (.ok (), compiled) =>
        (.ok (g.partProduct part includes), { compiled with stage := .partEmitted part.id }) := by
  obtain ⟨_, _, _, hcollected⟩ := ((Acts.collectPart g part).behind hcollect).proceeds
  obtain ⟨_, _, _, hwritten⟩ := ((Acts.writeHeader _ _ _).behind hwrite).proceeds
  have hheader : collected.partHeaderFile part = g.partHeaderFile part := by
    rw [hcollected]
    rfl
  have hheader' : written.partHeaderFile part = g.partHeaderFile part := by
    rw [hwritten, hcollected]
    rfl
  have harguments : written.partEmitArguments part = g.partEmitArguments part := by
    rw [hwritten, hcollected]
    rfl
  simp only [makePart, hemitted, hcollect, htext, hheader, hwrite, hheader', harguments,
    Bool.not_true, Bool.false_eq_true, if_false]
  cases hemit : written.emit (g.partEmitArguments part) s!"project part '{part.id}'"
    (g.partHeaderFile part) with
  | mk result compiled =>
    cases result with
    | error e => rfl
    | ok done =>
      obtain ⟨_, _, _, hcompiled⟩ := ((Acts.emit _ _ _ _).behind hemit).proceeds
      dsimp only
      rw [hcompiled, hwritten, hcollected]
      rfl

/-- With its headers collected, and the header file written and compiled, a part is made. -/
theorem makePart_of_emit {includes : IncludeSet} {text : String}
    {collected written compiled : Generator} (hemitted : g.emitted = true)
    (hcollect : g.collectPart part = (.ok includes, collected))
    (htext : headerText collected.workspace.table includes.order = .ok text)
    (hwrite : collected.writeHeader (g.partHeaderFile part) (Utf8.encode text.toList) =
      (.ok (), written))
    (hemit : written.emit (g.partEmitArguments part) s!"project part '{part.id}'"
      (g.partHeaderFile part) = (.ok (), compiled)) :
    g.makePart part =
      (.ok (g.partProduct part includes), { compiled with stage := .partEmitted part.id }) := by
  rw [makePart_of_write hemitted hcollect htext hwrite, hemit]

/-! ### All parts -/

/-- Whether a precompiled header and a record of includes are those of a part. -/
structure IsMadeFor (g : Generator) (part : ProjectPart) (made : Artifact × PartIncludes) :
    Prop where
  scope : made.1.scope = .part part.id
  path : made.1.path = g.partFile part
  header : made.1.header = g.partHeaderFile part
  commandLine : made.1.commandLine = g.commandLine (g.partEmitArguments part)
  part : made.2.part = part.id
  includes : made.2.includes = made.1.includes

theorem isMadeFor_partProduct (g : Generator) (part : ProjectPart) (includes : IncludeSet) :
    g.IsMadeFor part (g.partProduct part includes) := ⟨rfl, rfl, rfl, rfl, rfl, rfl⟩

/-- Where things are decides what the precompiled header of a part is. -/
theorem IsMadeFor.congr (h : g'.environment = g.environment) {made : Artifact × PartIncludes}
    (hmade : g'.IsMadeFor part made) : g.IsMadeFor part made := by
  obtain ⟨hscope, hpath, hheader, hline, hpart, hincludes⟩ := hmade
  simp only [partFile, partHeaderFile, Generator.commandLine, partEmitArguments, globalFile, h]
    at hpath hheader hline
  exact ⟨hscope, hpath, hheader, hline, hpart, hincludes⟩

/-- Parts are made if the first one is, and then the others. -/
theorem makeParts_cons_eq_ok {rest : List ProjectPart} {made : List (Artifact × PartIncludes)}
    (h : g.makeParts (part :: rest) = (.ok made, g')) : ∃ first after others,
      g.makePart part = (.ok first, after) ∧ after.makeParts rest = (.ok others, g') ∧
        made = first :: others := by
  simp only [makeParts] at h
  split at h
  · cases h
  · next first after hfirst =>
    split at h
    · cases h
    · next others _ hrest =>
      cases h
      exact ⟨first, after, others, hfirst, hrest, rfl⟩

/-- Parts fail if the first one does, or one of the others later. -/
theorem makeParts_cons_eq_error {rest : List ProjectPart}
    (h : g.makeParts (part :: rest) = (.error e, g')) :
    (∃ cause, g.makePart part = (.error cause, g') ∧ e = .partFailed part.id cause) ∨
      ∃ first after, g.makePart part = (.ok first, after) ∧
        after.makeParts rest = (.error e, g') := by
  simp only [makeParts] at h
  split at h
  · next cause _ hfirst =>
    cases h
    exact .inl ⟨cause, hfirst, rfl⟩
  · next first after hfirst =>
    split at h
    · next hrest =>
      cases h
      exact .inr ⟨first, after, hfirst, hrest⟩
    · cases h

theorem makeParts_eq_ok {parts : List ProjectPart} {made : List (Artifact × PartIncludes)}
    (h : g.makeParts parts = (.ok made, g')) : List.Forall₂ g.IsMadeFor parts made := by
  induction parts generalizing g made with
  | nil =>
    cases h
    exact .nil
  | cons part rest ih =>
    obtain ⟨first, after, others, hpart, hrest, rfl⟩ := makeParts_cons_eq_ok h
    obtain ⟨includes, _, _, _, _, -, -, -, -, rfl, -⟩ := makePart_eq_ok hpart
    have henvironment := ((Acts.makePart g part).behind hpart).goesOn.environment
    exact .cons (g.isMadeFor_partProduct part includes)
      ((ih hrest).imp fun _ _ => .congr henvironment)

theorem isAbort_of_makeParts {parts : List ProjectPart}
    (h : g.makeParts parts = (.error e, g')) : e.isAbort = true := by
  induction parts generalizing g with
  | nil => cases h
  | cons part rest ih =>
    rcases makeParts_cons_eq_error h with ⟨cause, -, rfl⟩ | ⟨first, after, -, hrest⟩
    · rfl
    · exact ih hrest

theorem Proceeds.emitted (h : Proceeds g g') : g'.emitted = g.emitted := by
  obtain ⟨_, _, _, rfl⟩ := h
  rfl

/-! ### Parts that are refused -/

/-- Whether the precompiled header of a part cannot be made, since there is none for all parts. -/
def Refuses (g : Generator) (part : ProjectPart) : Prop :=
  g.makePart part = (.error (.globalMissing part.id), g)

theorem refuses_of_not_emitted (h : g.emitted = false) (part : ProjectPart) :
    g.Refuses part := by
  rw [Refuses, makePart, h]
  rfl

/-- A part that fails on its own is not refused. -/
theorem isAbort_of_makePart (hemitted : g.emitted = true)
    (h : g.makePart part = (.error e, g')) : e.isAbort = false := by
  rcases makePart_eq_error h with ⟨hnone, -⟩ | ⟨_, rfl⟩ | ⟨_, _, rfl⟩ |
    ⟨_, _, _, _, -, -, -, hemit⟩
  · exact absurd (hemitted.symm.trans hnone) (by decide)
  · rfl
  · rfl
  · obtain ⟨_, _, -, rfl, -⟩ := emit_eq_error hemit
    rfl

/-- A part is refused exactly as long as there is no precompiled header for all parts. -/
theorem refuses_iff (g : Generator) (part : ProjectPart) : g.Refuses part ↔ g.emitted = false := by
  refine ⟨fun h => Bool.eq_false_iff.2 fun hemitted => ?_, fun h => refuses_of_not_emitted h part⟩
  exact Bool.noConfusion (isAbort_of_makePart hemitted h)

/-! ### A whole pass -/

/-- The generator when a pass begins. -/
def withoutProducts (g : Generator) : Generator :=
  { g with partArtifacts := [], partIncludes := [] }

/-- With the precompiled header for all parts made, and then those of the parts, a pass is done. -/
theorem generate_of_makeParts {artifact : Artifact} {made : List (Artifact × PartIncludes)}
    {started finished : Generator} (hglobal : g.withoutProducts.makeGlobal = (.ok artifact, started))
    (hmade : started.makeParts g.parts = (.ok made, finished)) :
    g.generate = (.ok (), { finished with
      partArtifacts := made.map Prod.fst, partIncludes := made.map Prod.snd, stage := .done }) := by
  have hparts : started.parts = g.parts := ((GoesOn.makeGlobal _).behind hglobal).parts
  rw [← hparts] at hmade
  simp only [generate]
  rw [← withoutProducts, hglobal]
  simp only [hmade]

theorem generate_cases (g : Generator) :
    (∃ e, ∃ failed : Generator, g.generate = (.error e, failed.abort) ∧ e.isAbort = true) ∨
    ∃ artifact started made finished,
      g.withoutProducts.makeGlobal = (.ok artifact, started) ∧
      started.makeParts g.parts = (.ok made, finished) ∧
      g.generate = (.ok (), { finished with
        partArtifacts := made.map Prod.fst, partIncludes := made.map Prod.snd, stage := .done }) := by
  cases hglobal : g.withoutProducts.makeGlobal with
  | mk result started =>
    have hparts : started.parts = g.parts := ((GoesOn.makeGlobal _).behind hglobal).parts
    cases result with
    | error e =>
      refine .inl ⟨.globalFailed e, started, ?_, rfl⟩
      simp only [generate]
      rw [← withoutProducts, hglobal]
    | ok artifact =>
      rw [← hparts]
      cases hmade : started.makeParts started.parts with
      | mk result finished =>
        cases result with
        | error e =>
          refine .inl ⟨e, finished, ?_, isAbort_of_makeParts hmade⟩
          simp only [generate]
          rw [← withoutProducts, hglobal]
          simp only [hmade]
        | ok made =>
          exact .inr ⟨artifact, started, made, finished, rfl, hmade,
            generate_of_makeParts hglobal (hparts ▸ hmade)⟩

/-! ### Refusals -/

/-- Whether a step makes the precompiled header for all parts, alone or in a pass. -/
def MakesGlobal (g g' : Generator) : Prop :=
  (∃ artifact, g.makeGlobal = (.ok artifact, g')) ∨ g.generate = (.ok (), g')

/-- Steps that do not make the precompiled header for all parts. -/
abbrev StepsWithoutGlobal : Generator → Generator → Prop :=
  Relation.ReflTransGen fun g g' => Step g g' ∧ ¬MakesGlobal g g'

theorem emitted_of_step (hstep : Step g g') (hnot : ¬MakesGlobal g g') (h : g.emitted = false) :
    g'.emitted = false := by
  cases hstep with
  | collectGlobal => exact h
  | collectPart part => exact (Acts.collectPart g part).proceeds.emitted.trans h
  | globalHeaderText => exact (Acts.knownGlobal g).proceeds.emitted.trans h
  | writeGlobalHeader => exact (Acts.writeGlobalHeader g).proceeds.emitted.trans h
  | writeHeader p text => exact (Acts.writeHeader g p text).proceeds.emitted.trans h
  | makeGlobal =>
    cases hmade : g.makeGlobal with
    | mk result g' =>
      cases result with
      | error e => exact (makeGlobal_eq_error hmade).emitted
      | ok artifact => exact absurd (.inl ⟨artifact, by rw [hmade]⟩) hnot
  | makePart part => exact (Acts.makePart g part).proceeds.emitted.trans h
  | generate =>
    rcases g.generate_cases with ⟨e, failed, hfailed, -⟩ | ⟨_, _, _, _, -, -, hdone⟩
    · rw [hfailed]
      rfl
    · exact absurd (.inr (by rw [hdone])) hnot
  | takePartArtifacts => exact h
  | takePartIncludes => exact h
  | takeGlobalArtifact => exact h
  | outside tree sink hle => exact h

theorem emitted_of_steps (hsteps : StepsWithoutGlobal g g') (h : g.emitted = false) :
    g'.emitted = false := by
  induction hsteps with
  | refl => exact h
  | tail _ hstep ih => exact emitted_of_step hstep.1 hstep.2 ih

/-! ### All or nothing -/

/-- What is there behind a pass that went well. -/
structure IsComplete (g g' : Generator) : Prop where
  stage : g'.stage = .done
  parts : ∃ made : List (Artifact × PartIncludes), List.Forall₂ g.IsMadeFor g.parts made ∧
    g'.takePartArtifacts.1 = made.map Prod.fst ∧ g'.takePartIncludes.1 = made.map Prod.snd
  global : ∃ includes started,
    g.withoutProducts.makeGlobal = (.ok (g.globalProduct includes), started) ∧
      g'.takeGlobalArtifact.1 = some (g.globalProduct includes)

/-- What is there behind a pass that failed. All parts are refused until there is a precompiled
    header for all of them again. -/
structure IsGivenUp (g : Generator) : Prop where
  stage : g.stage = .aborted
  partArtifacts : g.takePartArtifacts.1 = []
  partIncludes : g.takePartIncludes.1 = []
  globalArtifact : g.takeGlobalArtifact.1 = none
  refuses : ∀ later, StepsWithoutGlobal g later → ∀ part, later.Refuses part
  accepts : ∀ later, Steps g later → ∀ artifact made, later.makeGlobal = (.ok artifact, made) →
    ∀ part, ¬made.Refuses part

theorem isGivenUp_abort (g : Generator) : g.abort.IsGivenUp where
  stage := rfl
  partArtifacts := rfl
  partIncludes := rfl
  globalArtifact := rfl
  refuses later hsteps part := (later.refuses_iff part).2 (emitted_of_steps hsteps rfl)
  accepts later _ artifact made hmade part hrefuses := by
    obtain ⟨_, _, compiled, -, -, -, -, rfl⟩ := makeGlobal_eq_ok hmade
    cases (refuses_iff _ part).1 hrefuses

/-- A pass makes everything or keeps nothing, whatever the generator holds before. -/
theorem generate_all_or_nothing (g : Generator) :
    (∃ g', g.generate = (.ok (), g') ∧ g.IsComplete g') ∨
    ∃ e g', g.generate = (.error e, g') ∧ e.isAbort = true ∧ g'.IsGivenUp := by
  rcases g.generate_cases with ⟨e, failed, hfailed, habort⟩ |
    ⟨artifact, started, made, finished, hglobal, hmade, hdone⟩
  · exact .inr ⟨e, failed.abort, hfailed, habort, failed.isGivenUp_abort⟩
  · have henvironment : started.environment = g.environment :=
      ((GoesOn.makeGlobal g.withoutProducts).behind hglobal).environment
    have hkept := ((Acts.makeParts started g.parts).behind hmade).proceeds
    obtain ⟨_, _, compiled, -, -, -, rfl, rfl⟩ := makeGlobal_eq_ok hglobal
    refine .inl ⟨_, hdone, rfl, ⟨made, ?_, rfl, rfl⟩, _, _, hglobal, ?_⟩
    · exact (makeParts_eq_ok hmade).imp fun _ _ => .congr henvironment
    · obtain ⟨_, _, _, rfl⟩ := hkept
      rfl

end PrecompiledHeaders.Generator
