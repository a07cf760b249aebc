import PrecompiledHeaders.Proofs.Generation.PartSnapshots

/-!
# Histories

What operations were called on a generator since it was new, in any order, while around it the files
and the frontend changed (`Generator.History`). Of all that happened, a log tells what concerns the
precompiled header for all parts (`Generator.Incident`): that it was made, that something failed, or
that the headers for it were looked for without making it.

The log alone decides whether a part can be made (`Generator.parts_are_refused_iff`), and with which
headers excluded (`Generator.exclusions_are_latest`). These are the headers that were found last, be
it for the precompiled header or later: who looks for them again, after files have changed, has
parts made against headers that the precompiled header does not hold
(`Generator.exclusions_of_later_headers`).
-/

namespace PrecompiledHeaders

/-- Whether a stage is entered when a precompiled header has been made. -/
def Stage.IsBuilt : Stage → Prop
  | .globalEmitted | .partEmitted _ | .done => True
  | _ => False

namespace Generator

open FileTree

variable {g g' : Generator} {part : ProjectPart} {artifact : Artifact}

/-! ### Logs -/

/-- What a log tells about the precompiled header for all parts. -/
inductive Incident
  /-- It was made. -/
  | made (artifact : Artifact)
  /-- It could not be made, or a pass was given up. -/
  | failed
  /-- The headers for it were looked for, and it was not made. -/
  | collected (includes : IncludeSet)

namespace Incident

/-- What an attempt to make the precompiled header for all parts comes to. -/
def ofMaking : Except GenerationError Artifact → Incident
  | .ok artifact => .made artifact
  | .error _ => .failed

/-- What a pass comes to: an attempt to make the precompiled header for all parts, and a failure if
    the pass is given up. -/
def ofPass (g : Generator) : List Incident :=
  .ofMaking g.withoutProducts.makeGlobal.1 ::
    match g.generate.1 with
    | .ok () => []
    | .error _ => [.failed]

end Incident

variable {log happened : List Incident} {since : List IncludeSet} {includes : IncludeSet}

/-- Whether a log leaves nothing to build on: the precompiled header for all parts was never made,
    or something has failed since it was made last. -/
def IsUndone (log : List Incident) : Prop :=
  (∀ artifact, .made artifact ∉ log) ∨
    ∃ before artifact since, log = before ++ .made artifact :: since ∧
      (∀ other, .made other ∉ since) ∧ .failed ∈ since

/-- Whether a precompiled header for all parts is the last that was made, and nothing has failed
    since then. The headers for it may have been looked for again. -/
def Stands (log : List Incident) (artifact : Artifact) (since : List IncludeSet) : Prop :=
  ∃ before, log = before ++ .made artifact :: since.map .collected

/-- The headers for the precompiled header for all parts that were found last. -/
def latest (artifact : Artifact) (since : List IncludeSet) : List PathId :=
  (since.getLast?.map IncludeSet.order).getD artifact.includes

theorem latest_nil (artifact : Artifact) : latest artifact [] = artifact.includes := rfl

theorem latest_concat (artifact : Artifact) (since : List IncludeSet) (includes : IncludeSet) :
    latest artifact (since ++ [includes]) = includes.order := by
  simp [latest]

/-- Headers that are found again do not count as later ones. -/
theorem latest_of_forall (h : ∀ includes ∈ since, includes.order = artifact.includes) :
    latest artifact since = artifact.includes := by
  rcases List.eq_nil_or_concat since with rfl | ⟨front, includes, rfl⟩
  · exact latest_nil artifact
  · rw [List.concat_eq_append] at h ⊢
    rw [latest_concat, h includes (by simp)]

theorem not_stands_nil : ¬Stands [] artifact since := by
  rintro ⟨before, h⟩
  simp at h

/-- What comes last in a log is what was made, or headers that were found since. -/
theorem stands_concat_iff (incident : Incident) : Stands (log ++ [incident]) artifact since ↔
    incident = .made artifact ∧ since = [] ∨
      ∃ includes front, incident = .collected includes ∧ since = front ++ [includes] ∧
        Stands log artifact front := by
  constructor
  · rintro ⟨before, h⟩
    rcases List.eq_nil_or_concat since with rfl | ⟨front, includes, rfl⟩
    · obtain ⟨-, hlast⟩ := List.append_inj' h rfl
      exact .inl ⟨List.head_eq_of_cons_eq hlast, rfl⟩
    · rw [List.concat_eq_append, List.map_append, ← List.cons_append, ← List.append_assoc] at h
      obtain ⟨hlog, hlast⟩ := List.append_inj' h rfl
      exact .inr ⟨includes, front, List.head_eq_of_cons_eq hlast, List.concat_eq_append, before,
        hlog⟩
  · rintro (⟨rfl, rfl⟩ | ⟨includes, front, rfl, rfl, before, rfl⟩)
    · exact ⟨log, rfl⟩
    · exact ⟨before, by simp⟩

/-- A log goes on from where something was made last, if it ever was. -/
theorem exists_last_made (log : List Incident) : (∀ artifact, .made artifact ∉ log) ∨
    ∃ before artifact since, log = before ++ .made artifact :: since ∧
      ∀ other, .made other ∉ since := by
  induction log with
  | nil => exact .inl fun _ => List.not_mem_nil
  | cons incident rest ih =>
    rcases ih with hnone | ⟨before, artifact, since, rfl, hsince⟩
    · by_cases hmade : ∃ artifact, incident = .made artifact
      · obtain ⟨artifact, rfl⟩ := hmade
        exact .inr ⟨[], artifact, rest, rfl, hnone⟩
      · refine .inl fun artifact hmem => ?_
        rcases List.mem_cons.1 hmem with heq | hmem
        · exact hmade ⟨artifact, heq.symm⟩
        · exact hnone artifact hmem
    · exact .inr ⟨incident :: before, artifact, since, rfl, hsince⟩

/-- Where nothing is made and nothing fails, headers are looked for. -/
theorem exists_map_collected {rest : List Incident} (hmade : ∀ artifact, .made artifact ∉ rest)
    (hfailed : .failed ∉ rest) : ∃ since : List IncludeSet, rest = since.map .collected := by
  induction rest with
  | nil => exact ⟨[], rfl⟩
  | cons incident rest ih =>
    obtain ⟨since, rfl⟩ := ih (fun artifact hmem => hmade artifact (List.mem_cons_of_mem _ hmem))
      fun hmem => hfailed (List.mem_cons_of_mem _ hmem)
    cases incident with
    | made artifact => exact absurd List.mem_cons_self (hmade artifact)
    | failed => exact absurd List.mem_cons_self hfailed
    | collected includes => exact ⟨includes :: since, rfl⟩

/-- There is something to build on if what was made last stands. -/
theorem not_isUndone_iff : ¬IsUndone log ↔ ∃ artifact since, Stands log artifact since := by
  constructor
  · intro h
    rcases exists_last_made log with hnone | ⟨before, artifact, rest, hlog, hmade⟩
    · exact absurd (.inl hnone) h
    · obtain ⟨since, rfl⟩ := exists_map_collected hmade fun hfailed =>
        h (.inr ⟨before, artifact, rest, hlog, hmade, hfailed⟩)
      exact ⟨artifact, since, before, hlog⟩
  · rintro ⟨artifact, since, before, rfl⟩ (hnone | ⟨before', other, rest, heq, hmade, hfailed⟩)
    · exact hnone artifact (by simp)
    -- Of the two places where something was made, neither is behind the other.
    rcases List.append_eq_append_iff.1 heq with ⟨between, -, hrest⟩ | ⟨between, -, hrest⟩
    · cases between with
      | nil =>
        cases hrest
        simp at hfailed
      | cons incident between =>
        obtain ⟨-, hsince⟩ := List.cons.inj hrest
        have hmem : Incident.made other ∈ since.map Incident.collected := by
          rw [hsince]
          simp
        simp at hmem
    · cases between with
      | nil =>
        cases hrest
        simp at hfailed
      | cons incident between =>
        obtain ⟨-, rfl⟩ := List.cons.inj hrest
        exact hmade artifact (by simp)

/-! ### Histories -/

/-- A call of an operation, or a change around a generator, with what a log tells of it. -/
inductive Happens : Generator → List Incident → Generator → Prop
  | collectGlobal (g : Generator) : Happens g [.collected g.collectGlobal.1] g.collectGlobal.2
  | collectPart (g : Generator) (part : ProjectPart) : Happens g [] (g.collectPart part).2
  | globalHeaderText (g : Generator) : Happens g [] g.globalHeaderText.2
  | writeGlobalHeader (g : Generator) : Happens g [] g.writeGlobalHeader.2
  | writeHeader (g : Generator) (p : Path) (text : Bytes) : Happens g [] (g.writeHeader p text).2
  | makeGlobal (g : Generator) : Happens g [.ofMaking g.makeGlobal.1] g.makeGlobal.2
  | makePart (g : Generator) (part : ProjectPart) : Happens g [] (g.makePart part).2
  | generate (g : Generator) : Happens g (Incident.ofPass g) g.generate.2
  | takePartArtifacts (g : Generator) : Happens g [] g.takePartArtifacts.2
  | takePartIncludes (g : Generator) : Happens g [] g.takePartIncludes.2
  | takeGlobalArtifact (g : Generator) : Happens g [] g.takeGlobalArtifact.2
  /-- The files change, ids are given to more paths, diagnostics are added or taken, and the
      frontend works in another way. -/
  | outside (g : Generator) (tree : FileTree) {table : PathTable} (sink : DiagnosticSink)
    (frontend : Frontend) : g.workspace.table ≤ table →
    Happens g [] { g with frontend, workspace := ⟨tree, table, sink⟩ }

/-- What has happened since a generator was new, and what became of it. -/
inductive History : List Incident → Generator → Prop
  | new (parts : List ProjectPart) (environment : Environment) (frontend : Frontend)
    (workspace : Workspace) : History [] { parts, environment, frontend, workspace }
  | next {log happened : List Incident} {g g' : Generator} : History log g →
    Happens g happened g' → History (log ++ happened) g'

/-! ### What operations keep -/

/-- Whether the stage of a generator fits the question whether there is a precompiled header for all
    parts. -/
structure IsStaged (g : Generator) : Prop where
  built : g.stage.IsBuilt → g.emitted = true
  aborted : g.stage = .aborted → g.emitted = false

/-- Whether what is known about all parts is kept, apart from headers with new ids. -/
structure Keeps (g g' : Generator) : Prop where
  emitted : g'.emitted = g.emitted
  isStaged : g.IsStaged → g'.IsStaged
  includes : ∀ includes, g.globalIncludes = some includes → g'.globalIncludes = some includes
  knowsIds : g.KnowsIds → g'.KnowsIds

theorem Keeps.refl (g : Generator) : Keeps g g := ⟨rfl, id, fun _ => id, id⟩

theorem Keeps.trans {g'' : Generator} (h : Keeps g g') (h' : Keeps g' g'') : Keeps g g'' where
  emitted := h'.emitted.trans h.emitted
  isStaged hg := h'.isStaged (h.isStaged hg)
  includes includes hsome := h'.includes includes (h.includes includes hsome)
  knowsIds hg := h'.knowsIds (h.knowsIds hg)

theorem Build.keeps (h : Build g g') : Keeps g g' := by
  refine ⟨h.emitted, ?_, ?_, h.acts.goesOn.knowsIds⟩
  · intro hg
    cases h with
    | knownGlobal =>
      unfold Generator.knownGlobal
      split
      · exact hg
      · exact ⟨False.elim, fun heq => by cases heq⟩
    | collectAdding part excluded => exact ⟨False.elim, fun heq => by cases heq⟩
    | output tree sink => exact ⟨hg.built, hg.aborted⟩
    | finish part hemitted => exact ⟨fun _ => hemitted, fun heq => by cases heq⟩
  · intro includes hsome
    cases h with
    | knownGlobal =>
      rw [Generator.knownGlobal, hsome]
      exact hsome
    | collectAdding part excluded => exact hsome
    | output tree sink => exact hsome
    | finish part hemitted => exact hsome

theorem Builds.keeps (h : Builds g g') : Keeps g g' := by
  induction h with
  | refl => exact .refl g
  | tail _ hbuild ih => exact ih.trans hbuild.keeps

/-- What is not told is kept. -/
theorem Happens.keeps_or (h : Happens g happened g') : happened = [] ∧ Keeps g g' ∨
    happened = [.collected g.collectGlobal.1] ∧ g' = g.collectGlobal.2 ∨
    happened = [.ofMaking g.makeGlobal.1] ∧ g' = g.makeGlobal.2 ∨
    happened = Incident.ofPass g ∧ g' = g.generate.2 := by
  cases h with
  | collectGlobal => exact .inr (.inl ⟨rfl, rfl⟩)
  | collectPart part => exact .inl ⟨rfl, (Builds.collectPart g part).keeps⟩
  | globalHeaderText => exact .inl ⟨rfl, (Builds.globalHeaderText g).keeps⟩
  | writeGlobalHeader => exact .inl ⟨rfl, (Builds.writeGlobalHeader g).keeps⟩
  | writeHeader p text => exact .inl ⟨rfl, (Builds.writeHeader g p text).keeps⟩
  | makeGlobal => exact .inr (.inr (.inl ⟨rfl, rfl⟩))
  | makePart part => exact .inl ⟨rfl, (Builds.makePart g part).keeps⟩
  | generate => exact .inr (.inr (.inr ⟨rfl, rfl⟩))
  | takePartArtifacts => exact .inl ⟨rfl, rfl, fun hg => ⟨hg.built, hg.aborted⟩, fun _ => id, id⟩
  | takePartIncludes => exact .inl ⟨rfl, rfl, fun hg => ⟨hg.built, hg.aborted⟩, fun _ => id, id⟩
  | takeGlobalArtifact => exact .inl ⟨rfl, rfl, fun hg => ⟨hg.built, hg.aborted⟩, fun _ => id, id⟩
  | outside tree sink frontend hle =>
    exact .inl ⟨rfl, rfl, fun hg => ⟨hg.built, hg.aborted⟩, fun _ => id,
      fun hg includes hsome => (hg includes hsome).mono hle⟩

/-! ### What a log tells -/

/-- Whether a log tells what a generator knows about all parts. -/
structure Tells (log : List Incident) (g : Generator) : Prop where
  emitted : g.emitted = true ↔ ∃ artifact since, Stands log artifact since
  isStaged : g.IsStaged
  includes : ∀ artifact since, Stands log artifact since → ∃ includes,
    g.globalIncludes = some includes ∧ includes.order = latest artifact since
  knowsIds : g.KnowsIds

theorem Tells.of_keeps (h : Tells log g) (hkeeps : Keeps g g') : Tells log g' where
  emitted := hkeeps.emitted ▸ h.emitted
  isStaged := hkeeps.isStaged h.isStaged
  includes artifact since hstands := by
    obtain ⟨includes, hsome, horder⟩ := h.includes artifact since hstands
    exact ⟨includes, hkeeps.includes includes hsome, horder⟩
  knowsIds := hkeeps.knowsIds h.knowsIds

theorem tells_of_new (parts : List ProjectPart) (environment : Environment) (frontend : Frontend)
    (workspace : Workspace) : Tells [] { parts, environment, frontend, workspace } where
  emitted := iff_of_false Bool.false_ne_true fun ⟨_, _, hstands⟩ => not_stands_nil hstands
  isStaged := ⟨False.elim, fun _ => rfl⟩
  includes _ _ hstands := absurd hstands not_stands_nil
  knowsIds _ hsome := by cases hsome

/-- When something has failed, there is nothing to build on. -/
theorem tells_of_failed (log : List Incident) (hemitted : g.emitted = false)
    (hstage : ¬g.stage.IsBuilt) (hknows : g.KnowsIds) : Tells (log ++ [.failed]) g where
  emitted := by
    rw [hemitted]
    refine iff_of_false Bool.false_ne_true ?_
    rintro ⟨artifact, since, hstands⟩
    simp [stands_concat_iff] at hstands
  isStaged := ⟨fun hbuilt => absurd hbuilt hstage, fun _ => hemitted⟩
  includes artifact since hstands := by simp [stands_concat_iff] at hstands
  knowsIds := hknows

/-- The headers of what has just been made are known. -/
theorem tells_of_made (log : List Incident) (hemitted : g.emitted = true)
    (hstage : g.stage ≠ .aborted) (hsome : g.globalIncludes = some includes)
    (horder : includes.order = artifact.includes) (hknows : g.KnowsIds) :
    Tells (log ++ [.made artifact]) g where
  emitted := by
    rw [hemitted]
    exact iff_of_true rfl ⟨artifact, [], log, rfl⟩
  isStaged := ⟨fun _ => hemitted, fun haborted => absurd haborted hstage⟩
  includes other since hstands := by
    simp only [stands_concat_iff, Incident.made.injEq, reduceCtorEq, false_and, exists_false,
      or_false] at hstands
    obtain ⟨rfl, rfl⟩ := hstands
    exact ⟨includes, hsome, horder⟩
  knowsIds := hknows

/-- Headers that are looked for again are the latest, and change nothing else. -/
theorem Tells.collectGlobal (h : Tells log g) :
    Tells (log ++ [.collected g.collectGlobal.1]) g.collectGlobal.2 where
  emitted := by
    refine h.emitted.trans ⟨?_, ?_⟩
    · rintro ⟨artifact, since, hstands⟩
      exact ⟨artifact, since ++ [g.collectGlobal.1],
        (stands_concat_iff _).2 (.inr ⟨_, since, rfl, rfl, hstands⟩)⟩
    · rintro ⟨artifact, since, hstands⟩
      rcases (stands_concat_iff _).1 hstands with ⟨hmade, -⟩ | ⟨_, front, -, -, hfront⟩
      · cases hmade
      · exact ⟨artifact, front, hfront⟩
  isStaged := ⟨False.elim, fun haborted => by cases haborted⟩
  includes artifact since hstands := by
    rcases (stands_concat_iff _).1 hstands with ⟨hmade, -⟩ | ⟨includes, front, heq, rfl, -⟩
    · cases hmade
    · cases heq
      exact ⟨_, rfl, (latest_concat artifact front _).symm⟩
  knowsIds := (Act.collectGlobal g).goesOn.knowsIds h.knowsIds

/-- Whatever was told before, an attempt to make the precompiled header for all parts tells what is
    known then. -/
theorem tells_makeGlobal (log : List Incident) (hknows : g.KnowsIds) :
    Tells (log ++ [.ofMaking g.makeGlobal.1]) g.makeGlobal.2 := by
  have hknows' := (GoesOn.makeGlobal g).knowsIds hknows
  cases hmade : g.makeGlobal with
  | mk result g' =>
    rw [hmade] at hknows'
    cases result with
    | error e =>
      have hemitted := (makeGlobal_eq_error hmade).emitted
      obtain ⟨failed, hbuilds, hfailed⟩ := exists_builds_of_makeGlobal hmade
      refine tells_of_failed log hemitted (fun hbuilt => ?_) hknows'
      -- The search for the headers leaves the stage behind that says otherwise.
      have hstaged : failed.IsStaged := hbuilds.keeps.isStaged ⟨False.elim, fun h => by cases h⟩
      rcases hfailed with rfl | rfl
      · exact Bool.false_ne_true (hemitted.symm.trans (hstaged.built hbuilt))
      · exact hbuilt
    | ok artifact =>
      obtain ⟨text, written, compiled, -, hwrite, hemit, rfl, rfl⟩ := makeGlobal_eq_ok hmade
      have hbuilds : Builds g.withoutGlobal.collectGlobal.2 compiled :=
        ((Builds.writeHeader _ _ _).behind hwrite).trans ((Builds.emit _ _ _ _).behind hemit)
      have hsome : compiled.globalIncludes = some g.withoutGlobal.collectGlobal.1 :=
        hbuilds.keeps.includes _ rfl
      exact tells_of_made log rfl (by simp) hsome rfl hknows'

theorem tells_generate (log : List Incident) (hknows : g.KnowsIds) :
    Tells (log ++ Incident.ofPass g) g.generate.2 := by
  have hknows' := (GoesOn.generate g).knowsIds hknows
  rcases g.generate_cases with ⟨e, failed, hfailed, -⟩ |
    ⟨artifact, started, made, finished, hglobal, hmade, hdone⟩
  · rw [hfailed] at hknows'
    rw [Incident.ofPass, hfailed, List.append_cons]
    exact tells_of_failed _ rfl id hknows'
  · have hstarted : Tells (log ++ [.made artifact]) started := by
      have hmaking := tells_makeGlobal (g := g.withoutProducts) log hknows
      rwa [hglobal] at hmaking
    have hfinished := hstarted.of_keeps ((Builds.makeParts started g.parts).behind hmade).keeps
    rw [Incident.ofPass, hglobal, hdone]
    -- In the end, only the stage and the products of the parts change.
    exact ⟨hfinished.emitted, ⟨fun _ => hfinished.emitted.2 ⟨artifact, [], log, rfl⟩,
      fun haborted => by cases haborted⟩, hfinished.includes, hfinished.knowsIds⟩

/-- What happens is told. -/
theorem Tells.happens (h : Tells log g) (hhappens : Happens g happened g') :
    Tells (log ++ happened) g' := by
  rcases hhappens.keeps_or with ⟨rfl, hkeeps⟩ | ⟨rfl, rfl⟩ | ⟨rfl, rfl⟩ | ⟨rfl, rfl⟩
  · rw [List.append_nil]
    exact h.of_keeps hkeeps
  · exact h.collectGlobal
  · exact tells_makeGlobal log h.knowsIds
  · exact tells_generate log h.knowsIds

theorem History.tells (h : History log g) : Tells log g := by
  induction h with
  | new parts environment frontend workspace => exact tells_of_new _ _ _ _
  | next _ hhappens ih => exact ih.happens hhappens

theorem Tells.emitted_eq_false_iff (h : Tells log g) : g.emitted = false ↔ IsUndone log := by
  rw [← Bool.not_eq_true, h.emitted, ← not_isUndone_iff, not_not]

/-! ### Parts that are refused -/

/-- Whether a part is given up because there is nothing to build on. -/
def GivesUp (g : Generator) (part : ProjectPart) : Prop :=
  ∃ e, (g.makePart part).1 = .error e ∧ e.isAbort = true

theorem givesUp_iff (g : Generator) (part : ProjectPart) : g.GivesUp part ↔ g.emitted = false := by
  constructor
  · rintro ⟨e, herror, habort⟩
    refine Bool.eq_false_iff.2 fun hemitted => ?_
    have hmade : g.makePart part = (.error e, (g.makePart part).2) := Prod.ext herror rfl
    have hnot : e.isAbort = false := isAbort_of_makePart hemitted hmade
    exact Bool.false_ne_true (hnot.symm.trans habort)
  · intro hemitted
    have hrefuses : g.makePart part = _ := refuses_of_not_emitted hemitted part
    exact ⟨_, by rw [hrefuses], rfl⟩

/-- A part is given up exactly as long as the precompiled header for all parts was never made, or
    something has failed since. Then nothing changes and no frontend is asked, and it does not
    matter whether the precompiled header is taken. Also the stage tells the two cases apart. -/
theorem parts_are_refused_iff (h : History log g) (part : ProjectPart) :
    (g.GivesUp part ↔ IsUndone log) ∧
    (IsUndone log → ∀ frontend, ({ g with frontend } : Generator).makePart part =
      (.error (.globalMissing part.id), { g with frontend })) ∧
    (g.takeGlobalArtifact.2.GivesUp part ↔ g.GivesUp part) ∧
    (g.stage.IsBuilt → ¬g.GivesUp part) ∧ (g.stage = .aborted → g.GivesUp part) := by
  have htells := h.tells
  have hundone := htells.emitted_eq_false_iff
  refine ⟨(givesUp_iff g part).trans hundone, fun hlog frontend => ?_, ?_, fun hbuilt => ?_,
    fun haborted => ?_⟩
  · exact refuses_of_not_emitted (g := { g with frontend }) (hundone.2 hlog) part
  · rw [givesUp_iff, givesUp_iff]
    rfl
  · rw [givesUp_iff, htells.isStaged.built hbuilt]
    exact Bool.noConfusion
  · exact (givesUp_iff g part).2 (htells.isStaged.aborted haborted)

theorem history_pairIn (count : Nat) : History [] (pairIn count) := .new _ _ _ _

theorem history_pairStarted :
    History [.made ((pairIn 0).globalProduct pairFound)] (pairStarted 0) := by
  have hmade : (pairIn 0).makeGlobal = (_, pairStarted 0) := makeGlobal_pairIn (by decide)
  have hnext := (history_pairIn 0).next (.makeGlobal (pairIn 0))
  rwa [hmade] at hnext

/-- The only part is given up at first, and not any more when the precompiled header for all parts
    has been made. -/
theorem parts_are_refused_iff_pair : History [] (pairIn 0) ∧ (pairIn 0).GivesUp pairPart ∧
    (pairIn 0).makePart pairPart = (.error (.globalMissing "pair"), pairIn 0) ∧
    ∃ log, History log (pairStarted 0) ∧ ¬(pairStarted 0).GivesUp pairPart := by
  have hundone : IsUndone [] := .inl fun _ => List.not_mem_nil
  obtain ⟨hiff, hunchanged, -⟩ := parts_are_refused_iff (history_pairIn 0) pairPart
  obtain ⟨-, -, -, hbuilt, -⟩ := parts_are_refused_iff history_pairStarted pairPart
  exact ⟨history_pairIn 0, hiff.2 hundone, hunchanged hundone (pairIn 0).frontend, _,
    history_pairStarted, hbuilt trivial⟩

/-! ### Headers that are excluded -/

/-- The headers that are excluded when the headers that a part adds are looked for. -/
def exclusions (g : Generator) : Except UnresolvedPath (List Path) :=
  g.knownGlobal.2.workspace.table.resolve g.knownGlobal.1.order

/-- If a part is not refused, the headers that are excluded for it are those for the precompiled
    header for all parts that were found last. They are the headers of the precompiled header that
    was made last, unless since then the headers were looked for alone and others were found. -/
theorem exclusions_are_latest (h : History log g) (hnot : ¬g.Refuses part) :
    ∃ artifact since excluded, Stands log artifact since ∧
      g.exclusions = .ok excluded ∧
      (g.collectPart part).1 =
        .ok ((g.addingCollector part excluded).collect g.workspace).1.found ∧
      g.workspace.table.resolve (latest artifact since) = .ok excluded ∧
      ((∀ includes ∈ since, includes.order = artifact.includes) →
        g.workspace.table.resolve artifact.includes = .ok excluded) := by
  have htells := h.tells
  rw [refuses_iff, Bool.not_eq_false] at hnot
  obtain ⟨artifact, since, hstands⟩ := htells.emitted.1 hnot
  obtain ⟨includes, hsome, horder⟩ := htells.includes artifact since hstands
  have hknown : g.knownGlobal = (includes, g) := by rw [knownGlobal, hsome]
  obtain ⟨excluded, hresolve⟩ := PathTable.exists_resolve (htells.knowsIds includes hsome)
  have hexclusions : g.exclusions = .ok excluded := by
    rw [exclusions, hknown]
    exact hresolve
  have hcollect : g.collectPart part = _ := collectPart_of_resolve hexclusions
  rw [hknown] at hcollect
  rw [horder] at hresolve
  refine ⟨artifact, since, excluded, hstands, hexclusions, by rw [hcollect], hresolve,
    fun hsame => ?_⟩
  rwa [latest_of_forall hsame] at hresolve

theorem exclusions_are_latest_pair : ∃ log, History log (pairStarted 0) ∧
    ¬(pairStarted 0).Refuses pairPart ∧
    (pairStarted 0).exclusions = .ok [.ofString "/x.h"] := by
  have hnot : ¬(pairStarted 0).Refuses pairPart := by
    rw [refuses_iff]
    exact Bool.noConfusion
  obtain ⟨artifact, since, excluded, hstands, hexclusions, -, -, hsame⟩ :=
    exclusions_are_latest history_pairStarted hnot
  rcases (@stands_concat_iff artifact [] since _).1 hstands with ⟨hmade, rfl⟩ | ⟨_, _, hcollected, -⟩
  · cases hmade
    -- No headers were looked for since.
    have hresolve := hsame fun _ hmem => absurd hmem List.not_mem_nil
    cases resolve_pairFound.symm.trans hresolve
    exact ⟨_, history_pairStarted, hnot, hexclusions⟩
  · cases hcollected

/-- The precompiled header for all parts was made, and then the source lost its include. -/
def pairEdited : Generator :=
  (pairStarted 0).withTree (pairEmitted.set (locationOf ["a.cpp"]) (.file []))

theorem collect_pairEdited :
    (pairEdited.globalCollector pairPart).collect pairEdited.workspace =
      (pairEdited.globalCollector pairPart, pairEdited.workspace) := by
  have hread : pairEdited.workspace.tree.read (.ofString "/a.cpp") = .ok [] := by decide
  have hroots : Scan.roots [] .root (.ofString "/a.cpp") [] = [] := by with_unfolding_all decide
  have hpre : Scan.preprocess pairEdited.workspace.tree
      ⟨"clang++", Task.arguments [] (.preprocess (.ofString "/a.cpp")), .root⟩ [] =
        .ok ⟨[], []⟩ :=
    Scan.preprocess_of_walk Settings.isOpenEnded_nil isNormal_source_pair (Path.isText_ofString _)
      hread (by rw [hroots, Include.walk])
  exact (Collector.collect_of_unit pairEdited.workspace Frontend.leavesFiles_scan (by decide)
    (by decide) hpre).trans rfl

theorem collectGlobal_pairEdited : pairEdited.collectGlobal =
    (.empty, { pairEdited with globalIncludes := some .empty, stage := .includesKnown }) := by
  have hfiles : pairPart.headerAndSourcePaths ≠ [] := by decide
  have hparts : pairEdited.collectParts pairEdited.workspace pairEdited.parts =
      ([.empty], pairEdited.workspace) := by
    refine (collectParts_of_files hfiles).trans ?_
    rw [collect_pairEdited]
    rfl
  simp only [collectGlobal, hparts]
  rfl

/-- The headers for the precompiled header are looked for again when its only header is not included
    any more. Then no header is excluded for the part, while the precompiled header holds one. -/
theorem exclusions_of_later_headers : ∃ log g artifact since, History log g ∧
    Stands log artifact since ∧ ¬g.Refuses pairPart ∧
    g.workspace.table.resolve artifact.includes = .ok [.ofString "/x.h"] ∧
    g.exclusions = .ok [] := by
  have hedited : History [.made ((pairIn 0).globalProduct pairFound)] pairEdited :=
    history_pairStarted.next (.outside _ _ _ _ (PathTable.le_refl _))
  have hnext := hedited.next (.collectGlobal pairEdited)
  rw [collectGlobal_pairEdited] at hnext
  refine ⟨_, _, (pairIn 0).globalProduct pairFound, [.empty], hnext, ⟨[], rfl⟩, ?_,
    resolve_pairFound, rfl⟩
  rw [refuses_iff]
  exact Bool.noConfusion

end Generator

end PrecompiledHeaders
