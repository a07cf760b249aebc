import PrecompiledHeaders.Proofs.Job.Idle

/-!
# Revisions of documents

A document says of itself whether it needs a reparse. It takes every result for its primary unit
and compares revisions only to clear that mark, so an old result that came in behind a newer one
would make it lie. None does: only a reparse that prefers the primary unit writes it, so among the
running jobs that write it at most one is not outdated (`Run.eq_of_current`), and that one was
started behind all results that have come in (`Timely`).

`needsReparse_iff` says what the mark means at every moment of every run, and that the results of
a document come in the order of its revisions.
-/

namespace PrecompiledHeaders

/-- A result is for the revision that its run started from. -/
theorem PreparedRun.Gives.revision_eq {run : PreparedRun} {result : UpdateResult}
    (h : run.Gives result) : result.revision = run.input.revision := by
  obtain ⟨table, found, rfl⟩ := h
  cases found <;> rfl

/-- Only requests that prefer the primary unit write it. -/
theorem Request.unit_of_writes {request : Request} (h : request.writes = .primary) :
    request.unit = .primary := by
  unfold writes at h
  cases hk : request.kind <;> simp only [hk] at h
  · exact h
  · cases h

namespace Workshop

variable {q₀ : Queue} {compiler : String} {log after : Log} {w w' : Workshop} {e : Event}
  {r s : Request} {result : UpdateResult} {file : Path} {document : Document}

/-- What lies in the mailbox was given by the runs of the jobs. -/
theorem Run.gives (h₀ : q₀.IsFresh) (h : Run q₀ log w) :
    ∀ r ∈ w.queue.running, ∀ result, (r.number, result) ∈ w.mailbox → r.run.Gives result := by
  induction h with
  | start => simp
  | @step log w w' e h hs ih =>
    have hnodup := ((h.step hs).accounts h₀).nodup_running ((h.step hs).numbers h₀)
    cases hs with
    | opened ho => obtain ⟨_, -, rfl⟩ := Queue.openDocument_eq_ok ho; exact ih
    | closed hc => obtain ⟨_, _, -, rfl⟩ := Queue.closeDocument_eq_ok hc; exact ih
    | updated hu => rw [Queue.updateDocument_eq_ok hu]; exact ih
    | issued ha => obtain ⟨-, -, rfl⟩ := Queue.add_eq_ok ha; exact ih
    | cancelled _ hq => rw [(Queue.start_cancelled hq).2]; exact ih
    | refused _ hq => rw [(Queue.start_refused hq).2.2]; exact ih
    | started hp hq =>
      obtain ⟨-, run, -, rfl⟩ := Queue.start_started hq
      intro r hr result hm
      rcases List.mem_append.1 hr with hr | hr
      · exact ih r hr result hm
      · -- The results that are there belong to jobs with other numbers.
        obtain ⟨other, ho, hnum, -⟩ := (h.accounts h₀).finished _ _ hm
        rw [List.mem_singleton.1 hr] at hnum
        rw [List.map_append, List.nodup_append] at hnodup
        exact absurd hnum (hnodup.2.2 _ (List.mem_map_of_mem ho) _ (by simp))
    | @finished running result hr hnot hgives =>
      intro other ho result' hm
      rcases List.mem_append.1 hm with hm | hm
      · exact ih other ho result' hm
      · obtain ⟨hnum, rfl⟩ := Prod.ext_iff.1 (List.mem_singleton.1 hm)
        rwa [List.inj_on_of_nodup_map hnodup ho hr hnum]
    | applied hm hr hq | outdated hm hr hq =>
      obtain ⟨documents, rfl⟩ := Queue.eq_of_deliver hr hq
      exact fun r hr result hmem =>
        ih r (List.mem_filter.1 hr).1 result (hm ▸ List.mem_cons_of_mem _ hmem)

/-- At most one request for a unit of a document is not outdated. -/
theorem Run.eq_of_current (h : Run (.new compiler) log w) (hr : .issued r ∈ log)
    (hs : .issued s ∈ log) (hf : Path.Same r.file s.file) (hu : r.unit = s.unit)
    (hrc : (w.queue.context r).isOutdated w.queue.documents = false)
    (hsc : (w.queue.context s).isOutdated w.queue.documents = false) : r = s := by
  have hle {r s : Request} (hr : .issued r ∈ log) (hs : .issued s ∈ log)
      (hf : Path.Same r.file s.file) (hu : r.unit = s.unit)
      (hrc : (w.queue.context r).isOutdated w.queue.documents = false) :
      s.issuedAt ≤ r.issuedAt := by
    refine Nat.le_of_not_lt fun hlt => ?_
    have hsub := (h.pair_sublist_iff (Queue.isFresh_new _) hr hs rfl rfl).2 hlt
    simp [(h.isOutdated_iff hr).2 ⟨.issued s, ⟨hf, hu⟩, hsub⟩] at hrc
  exact h.eq_of_issuedAt_eq (Queue.isFresh_new _) hr hs
    (Nat.le_antisymm (hle hs hr hf.symm hu.symm hsc) (hle hr hs hf hu hrc))

/-! ### Results for the primary unit -/

/-- The revision of the result that comes into the primary unit of a document with an event. -/
def Event.revision? (file : Path) : Event → Option Nat
  | .applied r result =>
    if Path.Same file r.file ∧ r.writes = .primary then some result.revision else none
  | _ => none

/-- The revisions of the results that came into the primary unit of a document. -/
def Log.revisions (file : Path) (log : Log) : List Nat := log.filterMap (Event.revision? file)

theorem Event.revision?_eq_none (hf : ∀ other, e.changed? = some other → ¬Path.Same file other) :
    e.revision? file = none := by
  cases e with
  | applied r result => exact if_neg fun ⟨hsame, _⟩ => hf r.file rfl hsame
  | _ => rfl

theorem Log.revisions_concat (he : e.revision? file = none) :
    Log.revisions file (log ++ [e]) = log.revisions file := by
  simp [Log.revisions, he]

/-- A document whose primary results come in order, and that says what it needs. -/
structure Timely (file : Path) (after : Log) (w : Workshop) (document : Document) : Prop where
  /-- Revisions never decrease. -/
  increasing : (after.revisions file).Pairwise (· ≤ ·)
  /-- They do not exceed the one of the document. -/
  le_revision : ∀ n ∈ after.revisions file, n ≤ document.revision
  /-- The document holds one of the results. -/
  held : ∀ result, document.primary = some result → result.revision ∈ after.revisions file
  /-- It needs a reparse unless it holds a result for its own revision. -/
  truthful : document.needsReparse = false ↔
    ∃ result, document.primary = some result ∧ result.revision = document.revision
  /-- A job that will write its primary unit works on a revision that is no older than any
      result. -/
  running : ∀ r ∈ w.queue.running, Path.Same file r.job.request.file →
    r.job.request.writes = .primary →
    (w.queue.context r.job.request).isOutdated w.queue.documents = false →
    (∀ n ∈ after.revisions file, n ≤ r.run.input.revision) ∧
      r.run.input.revision ≤ document.revision

theorem SinceOpened.concat (h : SinceOpened file log after)
    (he : ∀ other, e = .opened other → ¬Path.Same file other) :
    SinceOpened file (log ++ [e]) (after ++ [e]) := by
  obtain ⟨before, other, rfl, hf, hnone⟩ := h
  refine ⟨before, other, by simp, hf, fun opened ho => ?_⟩
  rcases List.mem_append.1 ho with ho | ho
  · exact hnone opened ho
  · exact he opened (List.mem_singleton.1 ho).symm

/-- Events that do not concern the primary unit of a document leave it as it is. -/
theorem Timely.frame {document' : Document} (h : Run (.new compiler) log w) (hs : Step w e w')
    (ht : Timely file after w document) (he : e.revision? file = none)
    (hrunning : ∀ r ∈ w'.queue.running, r ∈ w.queue.running)
    (hrevision : document.revision = document'.revision)
    (hprimary : document'.primary = document.primary)
    (hmark : document'.needsReparse = document.needsReparse) :
    Timely file (after ++ [e]) w' document' := by
  have hsame : Log.revisions file (after ++ [e]) = after.revisions file := Log.revisions_concat he
  refine ⟨?_, ?_, ?_, ?_, fun r hr hf hw hcurrent => ?_⟩
  · rw [hsame]
    exact ht.increasing
  · rw [hsame, ← hrevision]
    exact ht.le_revision
  · rw [hsame, hprimary]
    exact ht.held
  · rw [hmark, hprimary, ← hrevision]
    exact ht.truthful
  · rw [hsame, ← hrevision]
    have hissued := h.issued_of_mem (Queue.isFresh_new _)
      (.inr (.inl (List.mem_map_of_mem (hrunning r hr))))
    exact ht.running r (hrunning r hr) hf hw (h.current_of_step hs hissued hcurrent)

/-- A document that has just been opened has no result, and no job will write it: those that
    are still running were issued before it was closed. -/
theorem Run.timely_of_opened (h : Run (.new compiler) log w) {other directory : Path}
    {part : String} {arguments : List String} {q : Queue} (hsame : Path.Same file other)
    (ho : w.queue.openDocument other part arguments directory = .ok q) :
    Timely file [] { w with queue := q } (.new other part w.queue.compiler arguments directory) := by
  refine ⟨.nil, nofun, nofun, by simp [Document.new], fun r hr hf hw hcurrent => ?_⟩
  have hs : Step w (.opened other) { w with queue := q } := .opened ho
  obtain ⟨documents, hd, rfl⟩ := Queue.openDocument_eq_ok ho
  have hissued := h.issued_of_mem (Queue.isFresh_new _) (.inr (.inl (List.mem_map_of_mem hr)))
  -- The document was not open, so the job was outdated.
  have hopen := contains_of_not_isOutdated (h.current_of_step hs hissued hcurrent)
  have hclosed : w.queue.documents.contains other = false := Documents.not_contains_of_opened hd
  rw [Queue.context, Documents.contains_congr (hf.symm.trans hsame), hclosed] at hopen
  cases hopen

/-- A change makes a document need a reparse, as no result is for the new revision yet. -/
theorem Timely.update (ht : Timely file after w document) (h : Run (.new compiler) log w)
    {other : Path} {arguments : Option (List String)} {revision : Nat} {q : Queue}
    (hu : w.queue.updateDocument other arguments = .ok (revision, q)) :
    Timely file (after ++ [Event.updated other]) { w with queue := q }
      (document.update arguments) := by
  have hsame : Log.revisions file (after ++ [Event.updated other]) = after.revisions file :=
    Log.revisions_concat rfl
  have hs : Step w (.updated other) { w with queue := q } := .updated hu
  obtain rfl := Queue.updateDocument_eq_ok hu
  refine ⟨?_, fun n hn => ?_, ?_, ?_, fun r hr hf hw hcurrent => ?_⟩
  · rw [hsame]
    exact ht.increasing
  · rw [hsame] at hn
    exact Nat.le_succ_of_le (ht.le_revision n hn)
  · rw [hsame]
    exact ht.held
  · refine ⟨nofun, fun ⟨result, hresult, heq⟩ => ?_⟩
    have := ht.le_revision _ (ht.held result hresult)
    simp only [Document.update] at heq
    omega
  · rw [hsame]
    have hissued := h.issued_of_mem (Queue.isFresh_new _) (.inr (.inl (List.mem_map_of_mem hr)))
    obtain ⟨hle, hrevision⟩ := ht.running r hr hf hw (h.current_of_step hs hissued hcurrent)
    exact ⟨hle, Nat.le_succ_of_le hrevision⟩

/-- A job that is started works on the current revision. -/
theorem Timely.start (ht : Timely file after w document) (h : Run (.new compiler) log w)
    (hd : w.queue.documents.get? file = some document) {job : Job} {rest : List Job} {q : Queue}
    (hp : w.queue.pending = job :: rest)
    (hq : { w.queue with pending := rest }.start job = ({ started := 1 }, q)) :
    Timely file (after ++ [Event.started job.request]) { w with queue := q } document := by
  have hsame : Log.revisions file (after ++ [Event.started job.request]) = after.revisions file :=
    Log.revisions_concat rfl
  have hproc := (h.procedure_eq (Queue.isFresh_new _)).1 job (hp ▸ List.mem_cons_self)
  obtain ⟨-, run, hrun, rfl⟩ := Queue.start_started hq
  refine ⟨?_, ?_, ?_, ht.truthful, fun r hr hf hw hcurrent => ?_⟩
  · rw [hsame]
    exact ht.increasing
  · rw [hsame]
    exact ht.le_revision
  · rw [hsame]
    exact ht.held
  · rw [hsame]
    rcases List.mem_append.1 hr with hr | hr
    · exact ht.running r hr hf hw hcurrent
    · obtain rfl := List.mem_singleton.1 hr
      -- What a job is given is a copy of the document as it is now.
      have hget : w.queue.documents.get? job.request.file = some document := by
        rw [← Documents.get?_congr hf, hd]
      simp only [hproc, Queue.new, Queue.context, Procedure.prepare_ofKind, hget] at hrun
      cases hrun
      exact ⟨ht.le_revision, Nat.le_refl _⟩

/-- A result that comes into the primary unit is no older than the one that it replaces. -/
theorem Timely.apply (ht : Timely file after w document) (h : Run (.new compiler) log w)
    {number : Nat} {rest : List (Nat × UpdateResult)} {running : RunningJob} {q : Queue}
    (hm : w.mailbox = (number, result) :: rest)
    (hfind : w.queue.running.find? (fun other => other.number = number) = some running)
    (hq : w.queue.deliver number result = ({ applied := 1 }, q))
    (hf : Path.Same file running.job.request.file) (hw : running.job.request.writes = .primary) :
    Timely file (after ++ [Event.applied running.job.request result]) ⟨q, rest⟩
      (document.incorporate .primary result) := by
  have hs : Step w (.applied running.job.request result) ⟨q, rest⟩ := .applied hm hfind hq
  have hmem := List.mem_of_find?_eq_some hfind
  have hnum : running.number = number := by simpa using List.find?_some hfind
  have hconcat : Log.revisions file (after ++ [Event.applied running.job.request result]) =
      after.revisions file ++ [result.revision] := by
    simp [Log.revisions, Event.revision?, hf, hw]
  obtain ⟨hissued, hcurrent, -⟩ := h.of_applied hs
  have hgives := h.gives (Queue.isFresh_new _) running hmem result
    (by rw [hm, hnum]; exact List.mem_cons_self)
  obtain ⟨hnewest, hrevision⟩ := ht.running running hmem hf hw hcurrent
  rw [← hgives.revision_eq] at hnewest hrevision
  refine ⟨?_, ?_, ?_, ?_, fun r hr hf' hw' hcurrent' => ?_⟩
  · rw [hconcat, List.pairwise_append]
    exact ⟨ht.increasing, List.pairwise_singleton _ _, by simpa using hnewest⟩
  · rw [hconcat]
    simpa [or_imp, forall_and, Document.incorporate] using ⟨ht.le_revision, hrevision⟩
  · rw [hconcat]
    simp [Document.incorporate]
  · -- A document that needs no reparse holds a result for its revision, and the new one, which is
    -- no older, is for that revision as well.
    have hold : document.needsReparse = false → result.revision = document.revision := by
      intro hmark
      obtain ⟨old, hprimary, heq⟩ := ht.truthful.1 hmark
      have := hnewest _ (ht.held old hprimary)
      omega
    cases hmark : document.needsReparse <;> simp_all [Document.incorporate]
  · -- Another job that is not outdated would be for the same request.
    obtain ⟨documents, rfl⟩ := Queue.eq_of_deliver hfind hq
    obtain ⟨hr, hne⟩ := List.mem_filter.1 hr
    have hrissued := h.issued_of_mem (Queue.isFresh_new _) (.inr (.inl (List.mem_map_of_mem hr)))
    have heq := h.eq_of_current hissued hrissued (hf.symm.trans hf')
      ((Request.unit_of_writes hw).trans (Request.unit_of_writes hw').symm) hcurrent
      (h.current_of_step hs hrissued hcurrent')
    have haccounts := h.accounts (Queue.isFresh_new _)
    refine absurd ?_ (of_decide_eq_true hne)
    rw [← hnum, haccounts.number r hr, haccounts.number running hmem, heq]

/-- What happens to other documents, or to none, leaves a document as it should be. -/
theorem Timely.other (ht : Timely file after w document) (h : Run (.new compiler) log w)
    (hs : Step w e w') (hd : w.queue.documents.get? file = some document)
    (hf : ∀ other, e.changed? = some other → ¬Path.Same file other) :
    Timely file (after ++ [e]) w' document := by
  by_cases he : ∃ request, e = .started request
  · obtain ⟨request, rfl⟩ := he
    cases hs with
    | started hp hq => exact ht.start h hd hp hq
  · exact ht.frame h hs (Event.revision?_eq_none hf)
      (hs.mem_running fun request heq => he ⟨request, heq⟩) rfl rfl rfl

/-- At every moment, every document that is open is as it should be. -/
theorem Run.timely (h : Run (.new compiler) log w)
    (hd : w.queue.documents.get? file = some document) :
    ∃ after, SinceOpened file log after ∧ Timely file after w document := by
  induction h generalizing document with
  | start => cases hd
  | @step log w w' e h hs ih =>
    by_cases hf : ∃ other, e.changed? = some other ∧ Path.Same file other
    swap
    · have hf : ∀ other, e.changed? = some other → ¬Path.Same file other :=
        fun other ho hsame => hf ⟨other, ho, hsame⟩
      rw [h.get?_step hs file hf] at hd
      obtain ⟨after, hafter, ht⟩ := ih hd
      exact ⟨after ++ [e], hafter.concat fun other ho => hf other (ho ▸ rfl), ht.other h hs hd hf⟩
    obtain ⟨other, hchanged, hf⟩ := hf
    cases hs with
    | opened ho =>
      cases hchanged
      obtain ⟨documents, hd', rfl⟩ := Queue.openDocument_eq_ok ho
      rw [Documents.get?_opened hd', if_pos (by exact hf)] at hd
      cases hd
      exact ⟨[], ⟨log, other, rfl, hf, nofun⟩, h.timely_of_opened hf ho⟩
    | closed hc =>
      cases hchanged
      obtain ⟨_, documents, hd', rfl⟩ := Queue.closeDocument_eq_ok hc
      rw [Documents.get?_closed hd', if_pos hf] at hd
      cases hd
    | updated hu =>
      cases hchanged
      have hupdated := hu
      obtain rfl := Queue.updateDocument_eq_ok hu
      rw [Documents.get?_modify fun d => d.file_update _, if_pos hf] at hd
      obtain ⟨document', hd', rfl⟩ := Option.map_eq_some_iff.1 hd
      obtain ⟨after, hafter, ht⟩ := ih hd'
      exact ⟨_, hafter.concat nofun, ht.update h hupdated⟩
    | @applied number result rest running q hm hr hq =>
      cases hchanged
      have hs := Step.applied hm hr hq
      rw [(h.of_applied hs).2.2, Documents.get?_modify fun d => d.file_incorporate _ _,
        if_pos hf] at hd
      obtain ⟨document', hd', rfl⟩ := Option.map_eq_some_iff.1 hd
      obtain ⟨after, hafter, ht⟩ := ih hd'
      refine ⟨_, hafter.concat nofun, ?_⟩
      cases hw : running.job.request.writes with
      | primary => exact ht.apply h hm hr hq hf hw
      | supportive =>
        exact ht.frame h hs (by simp [Event.revision?, hw]) (hs.mem_running nofun) rfl rfl rfl
    | _ => cases hchanged

/-- A document needs no reparse exactly if it holds a primary result for its revision. The
    primary results that have come into it since it was opened are for revisions that never
    decrease, up to the revision that it has now. -/
theorem needsReparse_iff (h : Run (.new compiler) log w)
    (hd : w.queue.documents.get? file = some document) :
    (document.needsReparse = false ↔
      ∃ result, document.result? .primary = some result ∧ result.revision = document.revision) ∧
    ∃ after, SinceOpened file log after ∧ (after.revisions file).Pairwise (· ≤ ·) ∧
      ∀ n ∈ after.revisions file, n ≤ document.revision := by
  obtain ⟨after, hafter, ht⟩ := h.timely hd
  exact ⟨ht.truthful, after, hafter, ht.increasing, ht.le_revision⟩

/-- A document that was changed and then reparsed holds the result for its second revision. -/
theorem needsReparse_iff_reparsed :
    let file := Path.ofString "/p/a.cpp"
    let r : Request := ⟨.reparse, file, .primary, 1⟩
    ∃ w document, Run (.new "clang++") [.opened file, .updated file, .issued r, .started r,
        .finished r ⟨2, [], []⟩, .applied r ⟨2, [], []⟩] w ∧
      w.queue.documents.get? file = some document ∧ document.needsReparse = false ∧
        (∃ result, document.result? .primary = some result ∧
          result.revision = document.revision) ∧ document.revision = 2 := by
  intro file r
  have h : Run (.new "clang++") [] _ := .start
  have h := h.step (.opened (show Queue.openDocument _ file "p" [] (.ofString "/p") = .ok _
    from rfl))
  have h := h.step (.updated (show Queue.updateDocument _ file none = .ok (2, _) from rfl))
  have h := h.step (.issued (show Queue.add _ (.new .reparse file .primary) = .ok _ from rfl))
  have h := h.step (.started rfl rfl)
  have h := h.step (.finished (List.mem_singleton_self _) List.not_mem_nil
    (show PreparedRun.Gives _ ⟨2, [], []⟩ from ⟨.empty, .ok ⟨[], []⟩, rfl⟩))
  let job : RunningJob :=
    ⟨1, ⟨.reparse, r, .running⟩, ⟨file, .primary, ⟨file, "clang++", [], .ofString "/p", 2⟩⟩⟩
  have h := h.step (.applied (r := job) rfl rfl rfl)
  let document : Document :=
    ⟨file, "p", "clang++", [], .ofString "/p", 2, false, some ⟨2, [], []⟩, none⟩
  have held {log : Log} {w : Workshop} (h : Run (.new "clang++") log w)
      (hd : w.queue.documents.get? file = some document) :
      ∃ w document, Run (.new "clang++") log w ∧
        w.queue.documents.get? file = some document ∧ document.needsReparse = false ∧
          (∃ result, document.result? .primary = some result ∧
            result.revision = document.revision) ∧ document.revision = 2 :=
    ⟨w, document, h, hd, rfl, (needsReparse_iff h hd).1.1 rfl, rfl⟩
  exact held h rfl

end Workshop

end PrecompiledHeaders
