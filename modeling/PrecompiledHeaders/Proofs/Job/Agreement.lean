import PrecompiledHeaders.Job.Reparse
import PrecompiledHeaders.Proofs.Frontend.Consumption
import PrecompiledHeaders.Proofs.Frontend.Emit
import PrecompiledHeaders.Proofs.Frontend.Exclusion
import PrecompiledHeaders.Proofs.Generation.Merging

/-!
# Reparses and collections

A reparse of a unit and a collection from nothing but that unit agree, if the frontend behaves in the
same way on both occasions (`UpdateInput.reparse_agrees_with_collect`). The collection puts ids into a
set, which leaves out repeats, and the reparse lists them as they come; but a frontend lists no file
twice, and all that it lists are normal paths. A reparse tells that there is no unit in other words than
a collection, but there is one in the arguments that both call the compiler with
(`Frontend.IsBuiltIn.ne_missingInput`).
-/

namespace PrecompiledHeaders

variable {tree tree' : FileTree} {invocation : Invocation} {frontend : Frontend} {unit : Path}

/-! ### Frontends that do the same again -/

/-- Which files of a trace are distinct is up to what identifies them. -/
theorem HeaderTrace.distinct_congr (h : ∀ p, tree'.identity p = tree.identity p)
    (seen paths : List Path) : distinct tree' seen paths = distinct tree seen paths := by
  induction paths generalizing seen with
  | nil => rfl
  | cons path rest ih => rw [distinct, distinct, h, ih, ih]

namespace Frontend

/-- Whether a frontend does with one tree what it does with another: the files are the same, or the
    compiler ends in the same way and leaves the same identities behind. -/
inductive Repeats (tree tree' : FileTree) (invocation : Invocation) : Frontend → Prop
  /-- The frontend that scans the same files. -/
  | scan : tree' = tree → Repeats tree tree' invocation scan
  /-- A frontend with a compiler that runs in the same way. -/
  | process {launch : Launcher} : (launch tree' invocation).1 = (launch tree invocation).1 →
    (∀ p, (launch tree' invocation).2.identity p = (launch tree invocation).2.identity p) →
    Repeats tree tree' invocation (process launch)

theorem Repeats.isBuiltIn (h : Repeats tree tree' invocation frontend) : frontend.IsBuiltIn := by
  cases h with
  | scan => exact .inl rfl
  | process => exact .inr ⟨_, rfl⟩

theorem Repeats.preprocess_eq (h : Repeats tree tree' invocation frontend) :
    (frontend.preprocess tree' invocation []).1 = (frontend.preprocess tree invocation []).1 := by
  cases h with
  | scan htree => rw [htree]
  | @process launch houtcome hidentity =>
    simp only [Frontend.process, houtcome]
    cases output invocation (launch tree invocation).1 with
    | error e => rfl
    | ok stderr =>
      simp only [HeaderTrace.headers, HeaderTrace.distinct_congr hidentity, List.map_nil,
        List.not_mem_nil]

/-- However a compiler ends, it is not for want of an input. -/
theorem output_ne_missingInput (invocation : Invocation) (outcome : Outcome) :
    output invocation outcome ≠ .error .missingInput := by
  fun_cases output <;> exact nofun

theorem scan_ne_missingInput (tree : FileTree)
    (hinputs : (Settings.ofArguments invocation.arguments).inputs ≠ []) :
    Scan.preprocess tree invocation [] ≠ .error .missingInput := by
  intro hmissing
  rw [Scan.preprocess_eq] at hmissing
  split at hmissing
  · next hnone => exact hinputs (List.map_eq_nil_iff.1 hnone)
  · split at hmissing
    · cases hmissing
    · -- Only a precompiled header in front can be at fault now.
      cases hbase : Scan.baseEntries tree ((Settings.ofArguments
          invocation.arguments).absolute invocation.directory).bases with
      | ok entries =>
        rw [hbase] at hmissing
        cases hmissing
      | error e =>
        obtain ⟨base, reason, rfl⟩ := Scan.exists_invalid_of_baseEntries hbase
        rw [hbase] at hmissing
        cases hmissing

/-- No frontend misses the input of arguments that name one. -/
theorem IsBuiltIn.ne_missingInput (h : frontend.IsBuiltIn) (tree : FileTree)
    (hinputs : (Settings.ofArguments invocation.arguments).inputs ≠ []) :
    (frontend.preprocess tree invocation []).1 ≠ .error .missingInput := by
  rcases h with rfl | ⟨launch, rfl⟩
  · exact scan_ne_missingInput tree hinputs
  · intro hmissing
    simp only [process] at hmissing
    split at hmissing
    · next e houtput =>
      cases hmissing
      exact output_ne_missingInput _ _ houtput
    · cases hmissing

end Frontend

/-- The arguments of a preprocessing task name an input. -/
theorem Settings.inputs_preprocess_ne_nil {arguments : List String} (h : IsComplete arguments)
    (hu : unit.isAbsolute) :
    (ofArguments (Task.arguments arguments (.preprocess unit))).inputs ≠ [] := by
  have hown : (ofArguments (Task.ownArguments (.preprocess unit))).inputs =
      [.ofString unit.display] := by
    rw [ofArguments, read_preprocess hu]
    rfl
  rw [Task.arguments, inputs_append h, hown]
  exact List.append_ne_nil_of_right_ne_nil _ (List.cons_ne_nil _ _)

/-! ### Ids, and collectors with one unit -/

/-- Normal paths without repeats have the same ids from one cache, whenever they are asked for, and no
    repeats among these. -/
theorem PathTable.eraseDups_ids_eq {t t' cache : PathTable} {paths : List Path}
    (hnormal : ∀ p ∈ paths, p.normalize = p) (hnodup : paths.Nodup) (h : (t.ids paths).2 ≤ cache)
    (h' : (t'.ids paths).2 ≤ cache) : (t'.ids paths).1.eraseDups = (t.ids paths).1 := by
  have hmap : paths.map Path.normalize = paths :=
    (List.map_congr_left hnormal).trans (List.map_id paths)
  have hisId := (t.isId_ids paths).imp fun _ _ hid => hid.mono h
  have hgives := (t'.gives_ids paths).mono h'
  rw [hmap] at hisId hgives
  rw [eraseDups_of_nodup hnodup] at hgives
  exact cache.biUnique_isId.2.forall₂ hgives.isId hisId

namespace Collector

variable {c : Collector}

/-- A collector that knows nothing but one unit takes in what that unit lists. -/
theorem collect_of_alone (hunits : c.units = [unit]) (hproject : c.projectFiles = [])
    (hexcluded : c.excluded = []) (hfound : c.found = .empty) (workspace : Workspace) :
    let result := (c.frontend.preprocess workspace.tree (c.invocation unit) []).1
    (c.collect workspace).1.found.order =
        (workspace.table.ids (listing result)).1.eraseDups ∧
      (c.collect workspace).2.table = (workspace.table.ids (listing result)).2 ∧
      (c.collect workspace).2.sink = workspace.sink.extend (told unit result) := by
  intro result
  have houtside : c.outside (listing result) = listing result := by
    refine List.filter_eq_self.2 fun header _ => ?_
    rw [isProjectFile, hproject]
    rfl
  have hmissing : c.missingExclusions workspace.tree = [] := by
    rw [missingExclusions, hexcluded]
    rfl
  have hall : (c.preprocessAll workspace.tree [unit]).1 = [result] := by
    simp only [preprocessAll, hexcluded]
    rfl
  have hresults : c.units.zip (c.preprocessAll workspace.tree c.units).1 = [(unit, result)] := by
    rw [hunits, hall]
    rfl
  have hcollect : c.collect workspace = c.addResults
      { workspace with tree := (c.preprocessAll workspace.tree c.units).2 } [(unit, result)] := by
    simp only [collect, hresults, hmissing]
    rfl
  have hlisting : [(unit, result)].flatMap (fun r => listing r.2) = listing result :=
    List.append_nil _
  have htold : [(unit, result)].flatMap (fun r => told r.1 r.2) = told unit result :=
    List.append_nil _
  rw [hcollect, addResults_eq, hlisting, htold, houtside, hfound]
  exact ⟨IncludeSet.order_ofList _, rfl, rfl⟩

end Collector

namespace UpdateInput

/-- The diagnostics about a frontend that gave up have one code, unless there is no unit. -/
theorem failureCode_eq {e : FrontendError} (h : e ≠ .missingInput) :
    failureCode e = Collector.failureCode e := by
  cases e with
  | missingInput => exact absurd rfl h
  | _ => rfl

/-- A collector for nothing but the unit that a reparse works on. -/
def collector (input : UpdateInput) (frontend : Frontend) : Collector :=
  Collector.prepared
    { frontend
      compiler := input.compiler
      arguments := input.arguments
      directory := input.directory } [input.file] [] []

variable {input : UpdateInput} {workspace : Workspace} {table cache : PathTable}

theorem units_collector (hfile : input.file.IsNormal) (frontend : Frontend) :
    (input.collector frontend).units = [input.file] := by
  rw [collector, Collector.IsFresh.units_prepared ⟨rfl, rfl⟩, List.map_singleton,
    hfile.normalizeFrom_eq]
  rfl

/-- What the frontend gives is what the collector takes in. -/
theorem collect_collector (hrepeats : frontend.Repeats tree workspace.tree input.invocation)
    (hfile : input.file.IsNormal) {outcome : Except FrontendError Preprocessed}
    (houtcome : (frontend.preprocess tree input.invocation []).1 = outcome) :
    ((input.collector frontend).collect workspace).1.found.order =
        (workspace.table.ids (Collector.listing outcome)).1.eraseDups ∧
      ((input.collector frontend).collect workspace).2.table =
        (workspace.table.ids (Collector.listing outcome)).2 ∧
      ((input.collector frontend).collect workspace).2.sink =
        workspace.sink.extend (Collector.told input.file outcome) := by
  have hsame : ((input.collector frontend).frontend.preprocess workspace.tree
      ((input.collector frontend).invocation input.file) []).1 = outcome :=
    hrepeats.preprocess_eq.trans houtcome
  rw [← hsame]
  exact Collector.collect_of_alone (units_collector hfile frontend) rfl rfl rfl workspace

/-- **Reparses and collections.** A reparse of a unit, and a collection from a collector that knows
    nothing but this unit, agree, if the frontend does the same on both occasions and the ids come from
    one cache, in whatever order. If the frontend succeeds, they give the same ids in the same order
    and the same warnings, all of them about includes that lead to no file. If it gives up, both give
    no ids and one error about the unit, with the same code. -/
theorem reparse_agrees_with_collect (hrepeats : frontend.Repeats tree workspace.tree input.invocation)
    (hcomplete : Settings.IsComplete input.arguments) (hdirectory : input.directory.isAbsolute)
    (hfile : input.file.IsNormal) (hreparsed : (input.reparse frontend tree table).2.2 ≤ cache)
    (hcollected : ((input.collector frontend).collect workspace).2.table ≤ cache) :
    let result := (input.reparse frontend tree table).1
    let collected := (input.collector frontend).collect workspace
    ((frontend.preprocess tree input.invocation []).1.isOk = true →
        result.includes = collected.1.takeFound.1.order ∧
        collected.2.sink = workspace.sink.extend result.diagnostics ∧
        ∀ d ∈ result.diagnostics, d.severity = .warning ∧ d.code = .unresolvedInclude) ∧
      ((frontend.preprocess tree input.invocation []).1.isOk = false →
        result.includes = [] ∧ collected.1.takeFound.1.order = [] ∧
        ∃ d d', result.diagnostics = [d] ∧ collected.2.sink = workspace.sink.extend [d'] ∧
          d.severity = .error ∧ d'.severity = .error ∧
          d.file = some input.file ∧ d'.file = some input.file ∧ d'.code = d.code) := by
  have hresult : input.reparse frontend tree table =
      ((input.resultOf table (frontend.preprocess tree input.invocation []).1).1,
        (frontend.preprocess tree input.invocation []).2,
        (input.resultOf table (frontend.preprocess tree input.invocation []).1).2) := rfl
  rw [hresult] at hreparsed ⊢
  dsimp only at hreparsed ⊢
  cases houtcome : (frontend.preprocess tree input.invocation []).1 with
  | ok found =>
    obtain ⟨horder, htable, hsink⟩ := collect_collector hrepeats hfile houtcome
    rw [htable] at hcollected
    rw [houtcome] at hreparsed
    have hpreprocess : frontend.preprocess tree input.invocation [] =
        (.ok found, (frontend.preprocess tree input.invocation []).2) := Prod.ext houtcome rfl
    have hlisting := hrepeats.isBuiltIn.isListing hdirectory hpreprocess
    have hids := PathTable.eraseDups_ids_eq
      (fun p hp => (hlisting.isNormal p hp).normalize_eq)
      (hlisting.distinct.imp fun hne heq => hne (congrArg _ heq)) hreparsed hcollected
    refine ⟨fun _ => ⟨(horder.trans hids).symm, hsink, fun d hd => ?_⟩, fun hfails => ?_⟩
    · obtain ⟨missing, -, rfl⟩ := List.mem_map.1 hd
      exact ⟨rfl, rfl⟩
    · cases hfails
  | error e =>
    obtain ⟨horder, -, hsink⟩ := collect_collector hrepeats hfile houtcome
    have hne : e ≠ .missingInput := by
      rintro rfl
      exact hrepeats.isBuiltIn.ne_missingInput tree
        (Settings.inputs_preprocess_ne_nil hcomplete hfile.isAbsolute) houtcome
    refine ⟨fun hok => ?_, fun _ => ⟨rfl, horder, _, _, rfl, hsink, rfl, rfl, rfl, rfl, ?_⟩⟩
    · cases hok
    · exact (failureCode_eq hne).symm

/-! ### A unit of a ring -/

/-- A unit that includes a header, which another one includes in turn, and one that is not there. -/
def ringInput : UpdateInput := ⟨.ofString "/a.cpp", "clang++", [], .root, 1⟩

/-- What there is after a reparse of the unit. -/
def ringWorkspace : Workspace :=
  ⟨Scan.ring, (ringInput.reparse .scan Scan.ring .empty).2.2, .empty⟩

/-- A collection after the reparse lists the same two headers, and tells what is not there again. -/
theorem reparse_agrees_with_collect_ring :
    Frontend.scan.Repeats Scan.ring ringWorkspace.tree ringInput.invocation ∧
      Settings.IsComplete ringInput.arguments ∧ ringInput.directory.isAbsolute = true ∧
      ringInput.file.IsNormal ∧
      ringWorkspace.table ≤ ((ringInput.collector .scan).collect ringWorkspace).2.table ∧
      ((ringInput.collector .scan).collect ringWorkspace).1.takeFound.1.order = [⟨0⟩, ⟨1⟩] ∧
      ((ringInput.collector .scan).collect ringWorkspace).2.sink.pending =
        [.warning .unresolvedInclude "'gone.h' file not found" (.ofString "/a.cpp")] := by
  have hrepeats : Frontend.scan.Repeats Scan.ring ringWorkspace.tree ringInput.invocation :=
    .scan rfl
  have hfile : ringInput.file.IsNormal := ⟨rfl, by decide⟩
  have hle := (Collector.collect_isKnown (ringInput.collector .scan) ringWorkspace).1
  have hwithin : Scan.preprocessWithin 5 Scan.ring [] .root [] (.ofString "/a.cpp") =
      some ⟨[.ofString "/x.h", .ofString "/y.h"], [⟨.ofString "/a.cpp", "gone.h"⟩]⟩ := by
    decide +kernel
  have hfound : (Frontend.scan.preprocess Scan.ring ringInput.invocation []).1 =
      .ok ⟨[.ofString "/x.h", .ofString "/y.h"], [⟨.ofString "/a.cpp", "gone.h"⟩]⟩ :=
    Scan.preprocess_of_preprocessWithin Settings.isOpenEnded_nil hfile (Path.isText_ofString _)
      hwithin
  have hresult : (ringInput.reparse .scan Scan.ring .empty).1 =
      (ringInput.resultOf .empty (Frontend.scan.preprocess Scan.ring ringInput.invocation []).1).1 := rfl
  have hreparsed : (ringInput.reparse .scan Scan.ring .empty).2.2 ≤
      ((ringInput.collector .scan).collect ringWorkspace).2.table := hle
  obtain ⟨hagrees, -⟩ := reparse_agrees_with_collect hrepeats rfl rfl hfile hreparsed
    (PathTable.le_refl _)
  rw [hresult, hfound] at hagrees
  obtain ⟨hincludes, hsink, -⟩ := hagrees rfl
  refine ⟨hrepeats, rfl, rfl, hfile, hle, ?_, ?_⟩
  · rw [← hincludes]
    decide +kernel
  · rw [hsink]
    decide +kernel

end UpdateInput

end PrecompiledHeaders
