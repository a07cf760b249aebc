import PrecompiledHeaders.Proofs.Generation.History
import PrecompiledHeaders.Proofs.Generation.Likeness
import PrecompiledHeaders.Proofs.Generation.Warnings

/-!
# What is left when a generator gives up

Calls are data (`Generator.Call`), so that what was called on a generator is a list of them, run one
after the other (`Generator.after`). What a log tells of them is computed on the way
(`Generator.log`).

There are two ways to give up. A pass that fails drops all that is held. An attempt to make the
precompiled header for all parts alone drops only that one, and it enters the last stage only if the
compiler fails, not if its header file cannot be written:

* whatever happens after a failed attempt, parts are refused until there is a precompiled header for
  all of them (`Generator.failed_global_leaves_nothing`);
* what a generator holds that has given up is left of a pass that went well before
  (`Generator.aborted_keeps_only_earlier_passes`).
-/

namespace PrecompiledHeaders.Generator

open FileTree

variable {g g' start : Generator} {told : List Incident} {e : GenerationError}

/-! ### Calls -/

/-- A call of an operation, or a change around a generator. -/
inductive Call
  | collectGlobal
  | collectPart (part : ProjectPart)
  | globalHeaderText
  | writeGlobalHeader
  | writeHeader (p : Path) (text : Bytes)
  | makeGlobal
  | makePart (part : ProjectPart)
  | generate
  | takePartArtifacts
  | takePartIncludes
  | takeGlobalArtifact
  /-- The files change, more paths are seen, diagnostics are added or taken, and the frontend works
      in another way. -/
  | outside (tree : FileTree) (seen : List Path) (sink : DiagnosticSink) (frontend : Frontend)

variable {call take : Call} {calls before since : List Call}

namespace Call

/-- The generator behind a call. -/
def run (g : Generator) : Call → Generator
  | .collectGlobal => g.collectGlobal.2
  | .collectPart part => (g.collectPart part).2
  | .globalHeaderText => g.globalHeaderText.2
  | .writeGlobalHeader => g.writeGlobalHeader.2
  | .writeHeader p text => (g.writeHeader p text).2
  | .makeGlobal => g.makeGlobal.2
  | .makePart part => (g.makePart part).2
  | .generate => g.generate.2
  | .takePartArtifacts => g.takePartArtifacts.2
  | .takePartIncludes => g.takePartIncludes.2
  | .takeGlobalArtifact => g.takeGlobalArtifact.2
  | .outside tree seen sink frontend =>
    { g with frontend, workspace := ⟨tree, (g.workspace.table.ids seen).2, sink⟩ }

/-- What a log tells of a call. -/
def log (g : Generator) : Call → List Incident
  | .collectGlobal => [.collected g.collectGlobal.1]
  | .makeGlobal => [.ofMaking g.makeGlobal.1]
  | .generate => Incident.ofPass g
  | _ => []

theorem happens (g : Generator) (call : Call) : Happens g (call.log g) (call.run g) := by
  cases call with
  | collectGlobal => exact .collectGlobal g
  | collectPart part => exact .collectPart g part
  | globalHeaderText => exact .globalHeaderText g
  | writeGlobalHeader => exact .writeGlobalHeader g
  | writeHeader p text => exact .writeHeader g p text
  | makeGlobal => exact .makeGlobal g
  | makePart part => exact .makePart g part
  | generate => exact .generate g
  | takePartArtifacts => exact .takePartArtifacts g
  | takePartIncludes => exact .takePartIncludes g
  | takeGlobalArtifact => exact .takeGlobalArtifact g
  | outside tree seen sink frontend =>
    exact .outside g tree sink frontend (g.workspace.table.le_ids seen)

end Call

/-- The generator behind some calls. -/
def after (g : Generator) : List Call → Generator
  | [] => g
  | call :: rest => (call.run g).after rest

/-- What a log tells of some calls. -/
def log (g : Generator) : List Call → List Incident
  | [] => []
  | call :: rest => call.log g ++ (call.run g).log rest

theorem after_append (g : Generator) (before since : List Call) :
    g.after (before ++ since) = (g.after before).after since := by
  induction before generalizing g with
  | nil => rfl
  | cons call rest ih => exact ih _

theorem Tells.after (h : Tells told g) (calls : List Call) :
    Tells (told ++ g.log calls) (g.after calls) := by
  induction calls generalizing g told with
  | nil => rwa [Generator.log, List.append_nil]
  | cons call rest ih =>
    rw [Generator.log, ← List.append_assoc]
    exact ih (h.happens (call.happens g))

/-! ### Attempts that fail -/

/-- What is found for the precompiled header for all parts can be listed. -/
theorem exists_headerText_collectGlobal (g : Generator) : ∃ text,
    headerText g.collectGlobal.2.workspace.table g.collectGlobal.1.order = .ok text := by
  obtain ⟨paths, hresolve⟩ := PathTable.exists_resolve g.collectGlobal_isKnown
  exact ⟨_, headerText_eq hresolve⟩

/-- Without the header file there is no precompiled header for all parts. -/
theorem makeGlobal_of_unwritten {text : String}
    (htext : headerText g.withoutGlobal.collectGlobal.2.workspace.table
      g.withoutGlobal.collectGlobal.1.order = .ok text)
    (hwrite : g.withoutGlobal.collectGlobal.2.writeHeader g.globalHeaderFile
      (Utf8.encode text.toList) = (.error e, g')) : g.makeGlobal = (.error e, g') := by
  have hheader : g.withoutGlobal.collectGlobal.2.writeGlobalHeader = (.error e, g') := by
    have hknown : g.withoutGlobal.collectGlobal.2.knownGlobal = g.withoutGlobal.collectGlobal := rfl
    have hfile : g.withoutGlobal.collectGlobal.2.globalHeaderFile = g.globalHeaderFile := rfl
    simp only [writeGlobalHeader, globalHeaderText, hknown, htext, Except.mapError, hfile, hwrite]
  simp only [makeGlobal]
  rw [← withoutGlobal, hheader]

/-- An attempt fails over the header file, or else over the compiler. -/
theorem makeGlobal_error_cases (h : g.makeGlobal = (.error e, g')) :
    (∃ text, g.withoutGlobal.collectGlobal.2.writeHeader g.globalHeaderFile text =
      (.error e, g')) ∨ ∃ cause, e = .frontend cause ∧ g'.stage = .aborted := by
  obtain ⟨text, htext⟩ := g.withoutGlobal.exists_headerText_collectGlobal
  cases hwrite : g.withoutGlobal.collectGlobal.2.writeHeader g.globalHeaderFile
    (Utf8.encode text.toList) with
  | mk result written =>
    cases result with
    | error reason =>
      cases (makeGlobal_of_unwritten htext hwrite).symm.trans h
      exact .inl ⟨_, hwrite⟩
    | ok done =>
      rw [makeGlobal_of_write htext hwrite] at h
      split at h
      · next hemit =>
        cases h
        obtain ⟨cause, _, -, rfl, -⟩ := emit_eq_error hemit
        exact .inr ⟨cause, rfl, rfl⟩
      · cases h

/-- The headers are known by the time their file is written. -/
theorem stage_of_unwritten {text : Bytes} (h : g.withoutGlobal.collectGlobal.2.writeHeader
    g.globalHeaderFile text = (.error e, g')) : g'.stage = .includesKnown := by
  obtain ⟨tree, heq⟩ := g.withoutGlobal.collectGlobal.2.writeHeader_eq g.globalHeaderFile text
  rw [h] at heq
  cases heq
  rfl

/-- Behind a failed attempt, the ids of the headers for it are known, whatever was known before. -/
theorem knowsIds_of_makeGlobal (h : g.makeGlobal = (.error e, g')) : g'.KnowsIds := by
  obtain ⟨failed, hbuilds, hfailed⟩ := exists_builds_of_makeGlobal h
  have hknows : failed.KnowsIds := hbuilds.keeps.knowsIds fun includes hsome => by
    cases hsome
    exact g.withoutGlobal.collectGlobal_isKnown
  rcases hfailed with rfl | rfl <;> exact hknows

/-- A failed attempt tells all that matters afterwards. -/
theorem tells_of_makeGlobal_error (h : g.makeGlobal = (.error e, g')) : Tells [.failed] g' := by
  refine tells_of_failed [] (makeGlobal_eq_error h).emitted ?_ (knowsIds_of_makeGlobal h)
  rcases makeGlobal_error_cases h with ⟨text, hwrite⟩ | ⟨cause, -, hstage⟩
  · rw [stage_of_unwritten hwrite]
    exact id
  · rw [hstage]
    exact id

/-- What has failed before anything was made makes no difference. -/
theorem isUndone_failed_cons : IsUndone (.failed :: told) ↔ IsUndone told := by
  rw [← not_iff_not, not_isUndone_iff, not_isUndone_iff]
  constructor
  · rintro ⟨artifact, since, before, heq⟩
    cases before with
    | nil => cases List.head_eq_of_cons_eq heq
    | cons incident before => exact ⟨artifact, since, before, (List.cons.inj heq).2⟩
  · rintro ⟨artifact, since, before, rfl⟩
    exact ⟨artifact, since, .failed :: before, rfl⟩

/-- An attempt that fails leaves no precompiled header for all parts. Whatever is called afterwards,
    parts are refused until one is made. The generator gives up just if it was the compiler that
    failed. Otherwise the header file could not be written, and then the headers for it are known. -/
theorem failed_global_leaves_nothing (h : g.makeGlobal = (.error e, g')) :
    g'.takeGlobalArtifact.1 = none ∧
    (∀ calls part, (g'.after calls).Refuses part ↔ IsUndone (g'.log calls)) ∧
    (g'.stage = .aborted ↔ ∃ cause, e = .frontend cause) ∧
    (g'.stage ≠ .aborted → g'.stage = .includesKnown ∧ ∃ p reason, e = .unwritable p reason) := by
  refine ⟨?_, fun calls part => ?_, ?_⟩
  · obtain ⟨_, _, _, rfl⟩ := makeGlobal_eq_error h
    rfl
  · rw [refuses_iff, ((tells_of_makeGlobal_error h).after calls).emitted_eq_false_iff]
    exact isUndone_failed_cons
  · rcases makeGlobal_error_cases h with ⟨text, hwrite⟩ | ⟨cause, rfl, hstage⟩
    · obtain ⟨p, reason, rfl⟩ := exists_unwritable_of_writeHeader hwrite
      have hstage := stage_of_unwritten hwrite
      refine ⟨iff_of_false ?_ ?_, fun _ => ⟨hstage, p, reason, rfl⟩⟩
      · rw [hstage]
        exact Stage.noConfusion
      · rintro ⟨cause, heq⟩
        cases heq
    · exact ⟨iff_of_true hstage ⟨cause, rfl⟩, fun hnot => absurd hstage hnot⟩

/-- Where the directory for the header file cannot be made, the generator does not give up. -/
theorem makeGlobal_of_no_directory {directory : Path} {reason : FileError} {tree : FileTree}
    (hleaves : g.frontend.LeavesFiles) (hparent : g.globalHeaderFile.parent? = some directory)
    (hmake : g.workspace.tree.makeDirectories directory = (.error reason, tree)) :
    ∃ failed, g.makeGlobal = (.error (.unwritable directory reason), failed) ∧
      failed.stage = .includesKnown := by
  obtain ⟨text, htext⟩ := g.withoutGlobal.exists_headerText_collectGlobal
  have htree : g.withoutGlobal.collectGlobal.2.workspace.tree = g.workspace.tree :=
    tree_collectParts_of_leavesFiles (g := g.withoutGlobal) hleaves _ _
  have hwrite : g.withoutGlobal.collectGlobal.2.writeHeader g.globalHeaderFile
      (Utf8.encode text.toList) = (.error (.unwritable directory reason),
        g.withoutGlobal.collectGlobal.2.withTree tree) := by
    simp only [writeHeader, hparent, htree, hmake]
    rfl
  exact ⟨_, makeGlobal_of_unwritten htext hwrite, rfl⟩

/-- The output directory is a file. -/
def blocked : Generator :=
  (pairIn 0).withTree (pair.workspace.tree.set (locationOf ["out"]) (.file []))

/-- The generator that cannot make its output directory does not give up. -/
theorem not_aborted_without_directory : ∃ e failed, blocked.makeGlobal = (.error e, failed) ∧
    failed.stage = .includesKnown := by
  have hparent : blocked.globalHeaderFile.parent? = some (.ofString "/out") := by decide
  have hmake : blocked.workspace.tree.makeDirectories (.ofString "/out") =
      (.error .exists, blocked.workspace.tree) := by with_unfolding_all rfl
  obtain ⟨failed, hfailed, hstage⟩ :=
    makeGlobal_of_no_directory Frontend.leavesFiles_scan hparent hmake
  exact ⟨_, failed, hfailed, hstage⟩

theorem makeGlobal_lacking : ∃ cause failed,
    lacking.makeGlobal = (.error (.frontend cause), failed) ∧ failed.stage = .aborted := by
  obtain ⟨_, _, _, hfails⟩ := fails_lacking
  obtain ⟨failed, hfailed⟩ := writesGlobal_lacking.makeGlobal_eq_error hfails
  refine ⟨_, failed, hfailed, ?_⟩
  rcases makeGlobal_error_cases hfailed with ⟨text, hwrite⟩ | ⟨_, -, hstage⟩
  · obtain ⟨_, _, heq⟩ := exists_unwritable_of_writeHeader hwrite
    cases heq
  · exact hstage

/-- The generator whose compiler fails gives up, and refuses its part. -/
theorem failed_global_leaves_nothing_lacking : ∃ e failed, lacking.makeGlobal = (.error e, failed) ∧
    failed.stage = .aborted ∧ failed.takeGlobalArtifact.1 = none ∧ failed.Refuses pairPart := by
  obtain ⟨cause, failed, hfailed, -⟩ := makeGlobal_lacking
  obtain ⟨hnone, hrefuses, haborted, -⟩ := failed_global_leaves_nothing hfailed
  have hundone : IsUndone (failed.log []) := .inl fun _ => List.not_mem_nil
  exact ⟨_, failed, hfailed, haborted.2 ⟨cause, rfl⟩, hnone, (hrefuses [] pairPart).2 hundone⟩

/-! ### What passes have left -/

/-- Whether a generator is new. -/
def IsNew (g : Generator) : Prop :=
  g = { parts := g.parts, environment := g.environment, frontend := g.frontend,
        workspace := g.workspace }

theorem IsNew.tells (h : g.IsNew) : Tells [] g := by
  rw [h]
  exact tells_of_new _ _ _ _

/-- Whether a list is what calls have left of another, of which one kind of call takes all. -/
def IsLeft {α : Type} (take : Call) (calls : List Call) (made left : List α) : Prop :=
  (take ∈ calls → left = []) ∧ (take ∉ calls → left = made)

theorem IsLeft.eq_nil {α : Type} {left : List α} (h : IsLeft take calls [] left) : left = [] := by
  by_cases hmem : take ∈ calls
  · exact h.1 hmem
  · exact h.2 hmem

/-- What only a pass makes is left as long as nobody takes it. -/
theorem isLeft_after {α : Type} {held : Generator → List α} (htake : ∀ g, held (take.run g) = [])
    (hkeep : ∀ g call, call ≠ .generate → call ≠ take → held (call.run g) = held g)
    (hpass : .generate ∉ calls) : IsLeft take calls (held g) (held (g.after calls)) := by
  induction calls generalizing g with
  | nil => exact ⟨fun h => absurd h List.not_mem_nil, fun _ => rfl⟩
  | cons call rest ih =>
    have hrest := ih (g := call.run g) fun hmem => hpass (List.mem_cons_of_mem _ hmem)
    by_cases heq : call = take
    · subst heq
      rw [htake] at hrest
      exact ⟨fun _ => hrest.eq_nil, fun hnot => absurd List.mem_cons_self hnot⟩
    · have hcall : call ≠ .generate := fun h => hpass (h ▸ List.mem_cons_self)
      rw [hkeep g call hcall heq] at hrest
      have hmem : take ∈ call :: rest ↔ take ∈ rest := by simp [Ne.symm heq]
      exact ⟨fun h => hrest.1 (hmem.1 h), fun h => hrest.2 fun h' => h (hmem.2 h')⟩

/-- An attempt to make the precompiled header for all parts leaves the parts alone. -/
theorem makeGlobal_keeps (g : Generator) :
    g.makeGlobal.2.partArtifacts = g.partArtifacts ∧
      g.makeGlobal.2.partIncludes = g.partIncludes := by
  cases hmade : g.makeGlobal with
  | mk result g' =>
    cases result with
    | error e =>
      obtain ⟨_, _, _, rfl⟩ := makeGlobal_eq_error hmade
      exact ⟨rfl, rfl⟩
    | ok artifact =>
      obtain ⟨text, written, compiled, -, hwrite, hemit, -, rfl⟩ := makeGlobal_eq_ok hmade
      have hacts := (Acts.collectGlobal g.withoutGlobal).trans
        (((Acts.writeHeader _ _ _).behind hwrite).trans ((Acts.emit _ _ _ _).behind hemit))
      obtain ⟨_, _, _, rfl⟩ := hacts.proceeds
      exact ⟨rfl, rfl⟩

/-- Only a few calls do more than to find, to write and to diagnose. -/
theorem Call.acts_or (g : Generator) (call : Call) : Acts g (call.run g) ∨
    call = .makeGlobal ∨ call = .generate ∨ call = .takePartArtifacts ∨ call = .takePartIncludes ∨
      call = .takeGlobalArtifact ∨ ∃ tree seen sink frontend,
        call = .outside tree seen sink frontend := by
  cases call with
  | collectGlobal => exact .inl (.collectGlobal g)
  | collectPart part => exact .inl (.collectPart g part)
  | globalHeaderText => exact .inl (.globalHeaderText g)
  | writeGlobalHeader => exact .inl (.writeGlobalHeader g)
  | writeHeader p text => exact .inl (.writeHeader g p text)
  | makePart part => exact .inl (.makePart g part)
  | makeGlobal | generate | takePartArtifacts | takePartIncludes | takeGlobalArtifact | outside =>
    exact .inr (by simp)

/-- What is held of the parts only changes with a pass, or when it is taken. -/
theorem Call.keeps_products (g : Generator) (hpass : call ≠ .generate) :
    (call ≠ .takePartArtifacts → (call.run g).partArtifacts = g.partArtifacts) ∧
      (call ≠ .takePartIncludes → (call.run g).partIncludes = g.partIncludes) := by
  rcases call.acts_or g with hacts | rfl | rfl | rfl | rfl | rfl | ⟨_, _, _, _, rfl⟩
  · obtain ⟨_, _, _, h⟩ := hacts.proceeds
    rw [h]
    exact ⟨fun _ => rfl, fun _ => rfl⟩
  · exact ⟨fun _ => g.makeGlobal_keeps.1, fun _ => g.makeGlobal_keeps.2⟩
  · exact absurd rfl hpass
  · exact ⟨fun hnot => absurd rfl hnot, fun _ => rfl⟩
  · exact ⟨fun _ => rfl, fun hnot => absurd rfl hnot⟩
  · exact ⟨fun _ => rfl, fun _ => rfl⟩
  · exact ⟨fun _ => rfl, fun _ => rfl⟩

theorem isLeft_partArtifacts (g : Generator) (hpass : .generate ∉ calls) :
    IsLeft .takePartArtifacts calls g.partArtifacts (g.after calls).partArtifacts :=
  isLeft_after (fun _ => rfl) (fun g _ hcall htake => (Call.keeps_products g hcall).1 htake) hpass

theorem isLeft_partIncludes (g : Generator) (hpass : .generate ∉ calls) :
    IsLeft .takePartIncludes calls g.partIncludes (g.after calls).partIncludes :=
  isLeft_after (fun _ => rfl) (fun g _ hcall htake => (Call.keeps_products g hcall).2 htake) hpass

/-- Whether a precompiled header for all parts is held only as long as there is one to build on. -/
def HoldsStanding (g : Generator) : Prop := g.emitted = false → g.globalArtifact = none

theorem HoldsStanding.run (h : g.HoldsStanding) (call : Call) : (call.run g).HoldsStanding := by
  rcases call.acts_or g with hacts | rfl | rfl | rfl | rfl | rfl | ⟨_, _, _, _, rfl⟩
  · obtain ⟨_, _, _, heq⟩ := hacts.proceeds
    rw [heq]
    exact h
  · rw [Call.run]
    cases hmade : g.makeGlobal with
    | mk result g' =>
      cases result with
      | error e =>
        obtain ⟨_, _, _, rfl⟩ := makeGlobal_eq_error hmade
        exact fun _ => rfl
      | ok artifact =>
        obtain ⟨_, _, _, -, -, -, -, rfl⟩ := makeGlobal_eq_ok hmade
        exact fun hemitted => Bool.noConfusion hemitted
  · rw [Call.run]
    rcases g.generate_cases with ⟨e, failed, hfailed, -⟩ | ⟨_, _, _, _, hglobal, hmade, hdone⟩
    · rw [hfailed]
      exact fun _ => rfl
    · obtain ⟨_, _, _, -, -, -, -, rfl⟩ := makeGlobal_eq_ok hglobal
      obtain ⟨_, _, _, rfl⟩ := ((Acts.makeParts _ _).behind hmade).proceeds
      rw [hdone]
      exact fun hemitted => Bool.noConfusion hemitted
  · exact h
  · exact h
  · exact fun _ => rfl
  · exact h

theorem HoldsStanding.after (h : g.HoldsStanding) (calls : List Call) :
    (g.after calls).HoldsStanding := by
  induction calls generalizing g with
  | nil => exact h
  | cons call rest ih => exact ih (h.run call)

/-- Whether nothing can be left of the last of some passes: there was none, it failed, or all that it
    made was taken since. -/
def IsSpent (g : Generator) (calls : List Call) : Prop :=
  ∀ before since, calls = before ++ .generate :: since → .generate ∉ since →
    (∃ e, (g.after before).generate.1 = .error e) ∨
      .takePartArtifacts ∈ since ∧ .takePartIncludes ∈ since

/-- Calls go on from the last pass, if there was any. -/
theorem exists_last_pass (calls : List Call) : .generate ∉ calls ∨
    ∃ before since, calls = before ++ .generate :: since ∧ .generate ∉ since := by
  by_cases hpass : .generate ∈ calls
  · obtain ⟨since, before, heq, hsince⟩ := List.eq_append_cons_of_mem (List.mem_reverse.2 hpass)
    refine .inr ⟨before.reverse, since.reverse, ?_, by simpa using hsince⟩
    rw [← calls.reverse_reverse, heq]
    simp
  · exact .inl hpass

/-- What is held of the parts is left of the last pass. -/
theorem isLeft_of_pass (start : Generator) (before : List Call) (hsince : .generate ∉ since) :
    IsLeft .takePartArtifacts since (start.after before).generate.2.takePartArtifacts.1
        (start.after (before ++ .generate :: since)).takePartArtifacts.1 ∧
      IsLeft .takePartIncludes since (start.after before).generate.2.takePartIncludes.1
        (start.after (before ++ .generate :: since)).takePartIncludes.1 := by
  rw [after_append]
  exact ⟨isLeft_partArtifacts _ hsince, isLeft_partIncludes _ hsince⟩

theorem products_of_failed_pass (h : g.generate.1 = .error e) :
    g.generate.2.takePartArtifacts.1 = [] ∧ g.generate.2.takePartIncludes.1 = [] := by
  rcases g.generate_cases with ⟨_, failed, hfailed, -⟩ | ⟨_, _, _, _, -, -, hdone⟩
  · rw [hfailed]
    exact ⟨rfl, rfl⟩
  · rw [hdone] at h
    cases h

theorem IsSpent.products (h : start.IsSpent calls) (hnew : start.IsNew) :
    (start.after calls).takePartArtifacts.1 = [] ∧
      (start.after calls).takePartIncludes.1 = [] := by
  rcases exists_last_pass calls with hpass | ⟨before, since, rfl, hsince⟩
  · have hartifacts := start.isLeft_partArtifacts hpass
    have hincludes := start.isLeft_partIncludes hpass
    rw [hnew] at hartifacts hincludes
    rw [hnew]
    exact ⟨hartifacts.eq_nil, hincludes.eq_nil⟩
  · obtain ⟨hartifacts, hincludes⟩ := start.isLeft_of_pass before hsince
    rcases h before since rfl hsince with ⟨e, herror⟩ | ⟨htaken, htaken'⟩
    · obtain ⟨hnone, hnone'⟩ := products_of_failed_pass herror
      rw [hnone] at hartifacts
      rw [hnone'] at hincludes
      exact ⟨hartifacts.eq_nil, hincludes.eq_nil⟩
    · exact ⟨hartifacts.1 htaken, hincludes.1 htaken'⟩

/-- A new generator that has given up holds no precompiled header for all parts. Of the parts it
    holds just what the last pass has left and nobody has taken since, which is nothing if that pass
    has failed. -/
theorem aborted_keeps_only_earlier_passes (hnew : start.IsNew)
    (haborted : (start.after calls).stage = .aborted) :
    (start.after calls).takeGlobalArtifact.1 = none ∧
    (start.IsSpent calls → (start.after calls).takePartArtifacts.1 = [] ∧
      (start.after calls).takePartIncludes.1 = []) ∧
    (∀ before since, calls = before ++ .generate :: since → .generate ∉ since →
      IsLeft .takePartArtifacts since (start.after before).generate.2.takePartArtifacts.1
        (start.after calls).takePartArtifacts.1 ∧
      IsLeft .takePartIncludes since (start.after before).generate.2.takePartIncludes.1
        (start.after calls).takePartIncludes.1) := by
  have hstanding : start.HoldsStanding := by
    rw [hnew]
    exact fun _ => rfl
  have hemitted := (hnew.tells.after calls).isStaged.aborted haborted
  refine ⟨hstanding.after calls hemitted, fun hspent => hspent.products hnew, ?_⟩
  rintro before since rfl hsince
  exact start.isLeft_of_pass before hsince

/-! #### A header that loses one -/

theorem after_goesOn (g : Generator) (calls : List Call) :
    (g.after calls).parts = g.parts ∧ (g.after calls).environment = g.environment := by
  induction calls generalizing g with
  | nil => exact ⟨rfl, rfl⟩
  | cons call rest ih =>
    have hcall : (call.run g).parts = g.parts ∧ (call.run g).environment = g.environment := by
      rcases call.acts_or g with hacts | rfl | rfl | rfl | rfl | rfl | ⟨_, _, _, _, rfl⟩
      · exact ⟨hacts.goesOn.parts, hacts.goesOn.environment⟩
      · exact ⟨(GoesOn.makeGlobal g).parts, (GoesOn.makeGlobal g).environment⟩
      · exact ⟨(GoesOn.generate g).parts, (GoesOn.generate g).environment⟩
      all_goals exact ⟨rfl, rfl⟩
    exact ⟨(ih _).1.trans hcall.1, (ih _).2.trans hcall.2⟩

/-- An attempt in files that lack a header fails as it does for a new generator. -/
theorem stage_of_lacking {sink sink' : DiagnosticSink} (h : lacking.Shares sink sink' g) :
    g.makeGlobal.2.stage = .aborted := by
  obtain ⟨cause, failed, hfailed, hstage⟩ := makeGlobal_lacking
  have hsame := h.makeGlobal
  rw [hfailed] at hsame
  generalize g.makeGlobal = made at hsame ⊢
  cases hsame with
  | error e halike => exact halike.stage.trans hstage

/-- Some calls. Then a header loses one that it includes, and the precompiled header for all parts is
    to be made again. -/
def losing (calls : List Call) : List Call :=
  calls ++ [.outside lackingTree [] .empty .scan, .makeGlobal]

theorem stage_losing (calls : List Call) :
    ((pairIn 0).after (losing calls)).stage = .aborted := by
  obtain ⟨hparts, henvironment⟩ := (pairIn 0).after_goesOn calls
  have hshares : lacking.Shares .empty .empty
      (Call.run ((pairIn 0).after calls) (.outside lackingTree [] .empty .scan)) :=
    ⟨hparts, henvironment, rfl, rfl, [], rfl, rfl⟩
  rw [losing, after_append]
  exact stage_of_lacking hshares

theorem generate_pair : ∃ artifact includes,
    (pairIn 0).generate.2.takePartArtifacts.1 = [artifact] ∧
      (pairIn 0).generate.2.takePartIncludes.1 = [includes] := by
  have hpass : (pairIn 0).generate = _ := generate_pairIn (by decide)
  rw [hpass]
  exact ⟨_, _, rfl, rfl⟩

/-- The generator has given up, and still holds what a pass has made before. -/
theorem aborted_still_holds_a_pass : (pairIn 0).IsNew ∧
    ((pairIn 0).after (losing [.generate])).stage = .aborted ∧
    ((pairIn 0).after (losing [.generate])).takePartArtifacts.1 ≠ [] ∧
    ((pairIn 0).after (losing [.generate])).takePartIncludes.1 ≠ [] := by
  obtain ⟨artifact, includes, hartifact, hincludes⟩ := generate_pair
  have hsince : Call.generate ∉ [.outside lackingTree [] .empty .scan, .makeGlobal] := by simp
  obtain ⟨hleft, hleft'⟩ := (pairIn 0).isLeft_of_pass [] hsince
  have hheld : ((pairIn 0).after (losing [.generate])).takePartArtifacts.1 = [artifact] :=
    (hleft.2 (by simp)).trans hartifact
  have hheld' : ((pairIn 0).after (losing [.generate])).takePartIncludes.1 = [includes] :=
    (hleft'.2 (by simp)).trans hincludes
  rw [hheld, hheld']
  exact ⟨rfl, stage_losing _, List.cons_ne_nil _ _, List.cons_ne_nil _ _⟩

/-- If it was taken before, nothing is held any more. -/
theorem aborted_keeps_only_earlier_passes_pair : (pairIn 0).IsNew ∧
    ∃ calls, .generate ∈ calls ∧ ((pairIn 0).after calls).stage = .aborted ∧
      (pairIn 0).IsSpent calls ∧ ((pairIn 0).after calls).takeGlobalArtifact.1 = none ∧
      ((pairIn 0).after calls).takePartArtifacts.1 = [] ∧
      ((pairIn 0).after calls).takePartIncludes.1 = [] := by
  let taken : List Call := [.generate, .takePartArtifacts, .takePartIncludes]
  have hspent : (pairIn 0).IsSpent (losing taken) := by
    intro before since heq _
    cases before with
    | nil =>
      obtain ⟨-, rfl⟩ := List.cons.inj heq
      exact .inr (by simp)
    | cons call before =>
      -- There is only one pass, and it comes first.
      obtain ⟨-, hrest⟩ := List.cons.inj (heq.trans (List.cons_append ..))
      have hmem : Call.generate ∈ before ++ .generate :: since := by simp
      rw [← hrest] at hmem
      simp at hmem
  have hnew : (pairIn 0).IsNew := rfl
  obtain ⟨hnone, hproducts, -⟩ := aborted_keeps_only_earlier_passes hnew (stage_losing taken)
  exact ⟨hnew, losing taken, List.mem_cons_self, stage_losing taken, hspent, hnone,
    hproducts hspent⟩

end PrecompiledHeaders.Generator
