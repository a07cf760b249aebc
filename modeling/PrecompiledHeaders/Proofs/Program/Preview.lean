import PrecompiledHeaders.Program.Run
import PrecompiledHeaders.Proofs.Program.Session

/-!
# Previews

The commands that look without making show what a pass would make of the same files: the headers
that all parts include, those that a part adds, and the command lines. What they print is what the
report on the pass says (`Program.previews_agree`), as long as no scan for a part looks into what
the pass makes (`Generator.LooksBack`).

The ids of the headers need not agree: when a pass comes to a part, it has given ids to what the
parts before it add, which a preview for the part does not look for. So the reported ids are shown
with the table of the pass, and both show the same paths.
-/

namespace PrecompiledHeaders.Program

open FileTree PathTable Generator

variable {session : Session} {tree : FileTree} {g' viewed : Generator} {includes : IncludeSet}
  {parts : List ProjectPart} {paths : List String}

/-! ### What is printed -/

/-- Whether a command went well and printed some texts, each on a line of its own. -/
def Output.Prints (output : Output) (texts : List String) : Prop :=
  output.code = 0 ∧ output.out = lines texts

/-- Ids of the same paths are shown alike. -/
theorem exists_showPaths {t t' : PathTable} {ids ids' : List PathId}
    (h : List.Forall₂ (SamePath t t') ids ids') :
    ∃ paths, showPaths t ids = .ok paths ∧ showPaths t' ids' = .ok paths := by
  obtain ⟨found, hfound⟩ := SamePath.exists_resolve h
  have hfound' : t'.resolve ids' = .ok found := (SamePath.resolve_eq h).symm.trans hfound
  exact ⟨found.map Path.display, by rw [showPaths, hfound]; rfl, by rw [showPaths, hfound']; rfl⟩

theorem prints_showIncludes {part : Option String} (coloured : Bool)
    (hfind : findIncludes (session.generator tree) part = (.ok includes, viewed))
    (hshow : showPaths viewed.workspace.table includes.order = .ok paths) :
    (showIncludes session coloured part tree).1.Prints paths := by
  simp only [showIncludes, hfind, hshow]
  exact ⟨rfl, rfl⟩

theorem prints_showCommandLine {part : ProjectPart}
    (h : (session.generator tree).part part.id = .ok part) :
    (showCommandLine session part.id tree).Prints ((session.generator tree).commandLine
      ((session.generator tree).partEmitArguments part)) := by
  simp only [showCommandLine, h]
  exact ⟨rfl, rfl⟩

/-! ### Reports -/

/-- Whether a report says what the commands that make nothing print on the files before the pass. -/
structure PassReport.IsForeseen (session : Session) (tree : FileTree) (table : PathTable)
    (report : PassReport) : Prop where
  global : ∃ artifact paths, report.global = some artifact ∧
    showPaths table artifact.includes = .ok paths ∧
    ∀ quiet coloured, (execute session quiet coloured (.includes none) tree).1.Prints paths
  includes : List.Forall₂ (fun part listed => listed.1 = part.id ∧ ∀ quiet coloured,
      (execute session quiet coloured (.includes (some part.id)) tree).1.Prints listed.2)
    session.config.parts report.includes
  commandLines : List.Forall₂ (fun part artifact => artifact.scope = .part part.id ∧
      ∀ quiet coloured, (execute session quiet coloured (.commandLine part.id) tree).1.Prints
        artifact.commandLine)
    session.config.parts report.parts

/-- The headers that the parts add are reported as they are shown for each part. -/
theorem exists_listed (haccepted : session.IsAccepted)
    (hparts : ∀ part ∈ parts, part ∈ session.config.parts) {made : List (Artifact × PartIncludes)}
    (h : List.Forall₂ (Generator.Foresees (session.generator tree) g') parts made) :
    ∃ listed, ((made.map Prod.snd).mapM fun part => do
        return (part.part, ← showPaths g'.workspace.table part.includes)) = .ok listed ∧
      List.Forall₂ (fun part listed => listed.1 = part.id ∧ ∀ quiet coloured,
        (execute session quiet coloured (.includes (some part.id)) tree).1.Prints listed.2)
        parts listed := by
  induction h with
  | nil => exact ⟨[], rfl, .nil⟩
  | @cons part first _ _ hfirst _ ih =>
    obtain ⟨listed, hlisted, hothers⟩ := ih fun other hother =>
      hparts other (List.mem_cons_of_mem _ hother)
    obtain ⟨foreseen, viewed, hcollect, hsame⟩ := hfirst.includes
    obtain ⟨paths, hshow, hshow'⟩ := exists_showPaths hsame
    have hfind : findIncludes (session.generator tree) (some part.id) = (.ok foreseen, viewed) := by
      simp only [findIncludes, haccepted.part_id tree (hparts part List.mem_cons_self), hcollect]
    refine ⟨(first.2.part, paths) :: listed, ?_,
      .cons ⟨hfirst.names, fun _ coloured => prints_showIncludes coloured hfind hshow⟩ hothers⟩
    rw [List.map_cons, List.mapM_cons, hshow', hlisted]
    rfl

/-! ### A project with one source -/

/-- The project with one source, as it is configured in the root directory. -/
def pairConfig : Config :=
  ⟨"clang++", "scan", ".", "out", 0, [⟨"pair", [], [], [.ofString "a.cpp"]⟩]⟩

/-- A session for the project. -/
def pairSession : Session := ⟨pairConfig.resolve .root, .scan⟩

theorem isAccepted_pairSession : pairSession.IsAccepted :=
  ⟨pairConfig, .root, by decide, by decide, rfl⟩

theorem config_pairSession : pairSession.config =
    ⟨"clang++", "scan", .root, .ofString "/out", 0, [pairPart]⟩ := by
  decide

theorem generator_pairSession (tree : FileTree) :
    pairSession.generator tree = pair.withTree tree := by
  simp only [Session.generator, config_pairSession]
  rfl

theorem showPaths_pairFound :
    showPaths pairTable pairFound.order = .ok ["/x.h"] := by
  have hdisplay : (Path.ofString "/x.h").display = "/x.h" := by with_unfolding_all decide
  rw [showPaths, resolve_pairFound]
  exact congrArg (fun text => Except.ok [text]) hdisplay

/-! ### A whole pass -/

/-- A pass reports what the commands that make nothing print on the files before it. -/
theorem previews_agree (haccepted : session.IsAccepted) (hscan : session.frontend = .scan)
    (htree : tree.IsTree)
    (hback : ∀ part ∈ session.config.parts, (session.generator tree).LooksBack part)
    (h : (session.generator tree).generate = (.ok (), g')) (quiet coloured : Bool)
    (format : ReportFormat) :
    ∃ heading report, PassReport.ofGenerator g' = .ok report ∧
      execute session quiet coloured (.generate format) tree =
        (reportOutput quiet coloured format heading report, g'.workspace.tree) ∧
      report.IsForeseen session tree g'.workspace.table := by
  obtain ⟨artifact, made, hglobal, hsame, hartifacts, hincludes, hforesees⟩ :=
    (haccepted.isReady hscan htree).generate hback h
  obtain ⟨paths, hshow, hshow'⟩ := exists_showPaths hsame
  obtain ⟨listed, hlisted, hprints⟩ := exists_listed haccepted (fun _ => id) hforesees
  have hreport : PassReport.ofGenerator g' =
      .ok ⟨g'.globalArtifact, g'.partArtifacts, listed, g'.workspace.sink.pending⟩ := by
    rw [PassReport.ofGenerator, hincludes, hlisted]
    rfl
  refine ⟨if quiet ∨ format = .json then "" else passHeading session.config,
    ⟨g'.globalArtifact, g'.partArtifacts, listed, g'.workspace.sink.pending⟩, hreport, ?_,
    ⟨artifact, paths, hglobal, hshow', fun _ coloured => prints_showIncludes coloured rfl hshow⟩,
    hprints, ?_⟩
  · simp only [execute, Program.generate, h, hreport]
  · simp only [hartifacts, List.forall₂_map_right_iff]
    refine List.Forall₂.imp (fun part made hpart => ?_)
      ((List.forall₂_and_left _ _).2 ⟨fun _ => id, hforesees⟩)
    obtain ⟨hmem, hforeseen⟩ := hpart
    refine ⟨hforeseen.scope, fun _ _ => ?_⟩
    rw [hforeseen.commandLine]
    exact prints_showCommandLine (haccepted.part_id tree hmem)

theorem previews_agree_pair : pairSession.IsAccepted ∧ pairSession.frontend = .scan ∧
    pair.workspace.tree.IsTree ∧
    (∀ part ∈ pairSession.config.parts,
      (pairSession.generator pair.workspace.tree).LooksBack part) ∧
    (∃ g', (pairSession.generator pair.workspace.tree).generate = (.ok (), g')) ∧
    (execute pairSession false false (.includes none) pair.workspace.tree).1.Prints ["/x.h"] := by
  have htree : pair.workspace.tree.IsTree := ⟨isSound_pair.above, rfl⟩
  have hgenerator : pairSession.generator pair.workspace.tree = pair := generator_pairSession _
  have hback : ∀ part ∈ pairSession.config.parts,
      (pairSession.generator pair.workspace.tree).LooksBack part := by
    rw [config_pairSession, hgenerator]
    intro part hpart
    rw [List.mem_singleton.1 hpart]
    exact looksBack_pair
  have hmade := generates_pair
  rw [← hgenerator] at hmade
  obtain ⟨heading, report, hreport, -, hforeseen⟩ :=
    previews_agree isAccepted_pairSession rfl htree hback hmade false false .text
  obtain ⟨artifact, paths, hartifact, hshow, hprints⟩ := hforeseen.global
  have hpaths : paths = ["/x.h"] := by
    cases hreport
    cases hartifact
    cases showPaths_pairFound.symm.trans hshow
    rfl
  exact ⟨isAccepted_pairSession, rfl, htree, hback, ⟨_, hmade⟩, hpaths ▸ hprints false false⟩

/-- With links it is not enough that the units and all that is reached from them are outside of the
    output directory, before the pass and after it: the header file for all parts may be written
    through a link and be a header of the part then, which no preview has seen. -/
theorem preview_misses_alias : pairSession.IsAccepted ∧ pairSession.frontend = .scan ∧
    aliasedTree.IsTree ∧ ∃ g' report,
      (pairSession.generator aliasedTree).generate = (.ok (), g') ∧
      (∀ tree ∈ [aliasedTree, g'.workspace.tree], ∀ part ∈ pairSession.config.parts,
        (∀ file ∈ part.files, ¬pairSession.config.outputDirectory.IsBelow file) ∧
        (pairSession.generator tree).SparesOutput part.arguments part) ∧
      PassReport.ofGenerator g' = .ok report ∧ report.includes = [("pair", ["/x.h"])] ∧
      (execute pairSession false false (.includes (some "pair")) aliasedTree).1.out = "" := by
  have hgenerator : pairSession.generator aliasedTree = aliased := generator_pairSession _
  have hmade := generate_aliased
  rw [← hgenerator] at hmade
  have hreport : PassReport.ofGenerator aliasedDone = .ok ⟨aliasedDone.globalArtifact,
      aliasedDone.partArtifacts, [("pair", ["/x.h"])], aliasedSink.pending⟩ := by
    simp only [PassReport.ofGenerator, aliasedDone, partProduct, List.mapM_cons, List.mapM_nil]
    rw [showPaths_pairFound]
    rfl
  refine ⟨isAccepted_pairSession, rfl, isTree_aliasedTree, _, _, hmade, fun tree htree => ?_,
    hreport, rfl, ?_⟩
  · intro part hpart
    rw [config_pairSession] at hpart ⊢
    rw [generator_pairSession]
    cases List.mem_singleton.1 hpart
    have hread : tree.read (.ofString "/a.cpp") =
        .ok (Path.ofString "#include \"x.h\"\n").bytes := by
      rcases List.mem_pair.1 htree with rfl | rfl <;> decide
    have hincludes : tree.includes (.ofString "/x.h") = [] := by
      rcases List.mem_pair.1 htree with rfl | rfl <;> with_unfolding_all decide
    have hout : (Path.ofString "/out").location = locationOf ["out"] := by decide
    refine ⟨fun file hfile => ?_, fun p hp hreaches => ?_⟩
    · cases List.mem_singleton.1 hfile
      exact not_isBelow_out hout isNormal_source_pair (by decide)
    · cases eq_of_reachesFrom_pairPart hread hincludes hp hreaches
      exact not_isBelow_out hout hp (by decide)
  · obtain ⟨viewed, hcollect⟩ := collectPart_aliased
    have hfind : findIncludes (pairSession.generator aliasedTree) (some "pair") =
        (.ok .empty, viewed) := by
      rw [hgenerator]
      exact hcollect
    have hprints : (showIncludes pairSession false (some "pair") aliasedTree).1.Prints [] :=
      prints_showIncludes false hfind rfl
    exact hprints.2

end PrecompiledHeaders.Program
