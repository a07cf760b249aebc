import PrecompiledHeaders.Proofs.Job.Log

/-!
# Fresh results

What a new queue (`Queue.new`) does with results, over all runs of its workshop. Its jobs are
those for the kinds of their requests, so what becomes of a job is decided by the record alone,
and the record by the log (`Run.isOutdated_iff`): a job is outdated exactly if, behind its
request, the document was closed, or another request prefers the same unit of it.

`applied_is_current` says that no stale result gets into a document, if the units that jobs write
are those that their requests prefer.
-/

namespace PrecompiledHeaders

/-! ### The jobs of a new queue -/

namespace Procedure

/-- How a job for a kind of request ends: the unit that it writes gets the result. -/
theorem finalize_ofKind (own : Request) (context : Context) (documents : Documents)
    (result : UpdateResult) : (ofKind own.kind).finalize own context documents result =
      if context.isOutdated documents ∨ !documents.contains own.file then (.outdated, documents)
      else (.applied, documents.modify own.file fun document =>
        document.incorporate own.writes result) := by
  unfold Request.writes
  cases own.kind <;> rfl

/-- A job for a kind of request can be prepared as long as its document is open. -/
theorem prepare_ofKind (request : Request) (issued : IssuedRequests) (documents : Documents) :
    (ofKind request.kind).prepare ⟨request, issued⟩ documents =
      match documents.get? request.file with
      | some document => .ok ⟨document.file, request.writes, document.updateInput⟩
      | none => .error (.malformed (.notOpen request.file)) := by
  unfold Request.writes
  cases hk : request.kind <;>
    simp only [ofKind, reparse, supportive, reparsing, hk, Context.document] <;>
    cases documents.get? request.file <;> rfl

end Procedure

namespace Workshop

variable {q₀ : Queue} {compiler : String} {log : Log} {w w' : Workshop} {e : Event} {r : Request}
  {result : UpdateResult}

theorem Step.factory_eq (hs : Step w e w') : w'.queue.factory = w.queue.factory := by
  cases hs with
  | opened h => obtain ⟨_, -, rfl⟩ := Queue.openDocument_eq_ok h; rfl
  | closed h => obtain ⟨_, _, -, rfl⟩ := Queue.closeDocument_eq_ok h; rfl
  | updated h => rw [Queue.updateDocument_eq_ok h]
  | issued h => obtain ⟨-, -, rfl⟩ := Queue.add_eq_ok h; rfl
  | cancelled _ h => rw [(Queue.start_cancelled h).2]
  | refused _ h => rw [(Queue.start_refused h).2.2]
  | started _ h => obtain ⟨-, _, -, rfl⟩ := Queue.start_started h; rfl
  | finished => rfl
  | applied _ hr h | outdated _ hr h =>
    obtain ⟨documents, rfl⟩ := Queue.eq_of_deliver hr h
    rfl

theorem Run.factory_eq (h : Run q₀ log w) : w.queue.factory = q₀.factory := by
  induction h with
  | start => rfl
  | step _ hs ih => rw [hs.factory_eq, ih]

/-- All jobs come from the factory of the queue. -/
theorem Run.procedure_eq (h₀ : q₀.IsFresh) (h : Run q₀ log w) :
    (∀ job ∈ w.queue.pending, job.procedure = q₀.factory job.request) ∧
      ∀ r ∈ w.queue.running, r.job.procedure = q₀.factory r.job.request := by
  induction h with
  | start => simp [h₀.pending, h₀.running]
  | @step log w w' e h hs ih =>
    obtain ⟨hpending, hrunning⟩ := ih
    cases hs with
    | opened ho => obtain ⟨_, -, rfl⟩ := Queue.openDocument_eq_ok ho; exact ⟨hpending, hrunning⟩
    | closed hc => obtain ⟨_, _, -, rfl⟩ := Queue.closeDocument_eq_ok hc; exact ⟨hpending, hrunning⟩
    | updated hu => rw [Queue.updateDocument_eq_ok hu]; exact ⟨hpending, hrunning⟩
    | issued ha =>
      obtain ⟨-, -, rfl⟩ := Queue.add_eq_ok ha
      refine ⟨fun job hj => ?_, hrunning⟩
      rcases List.mem_append.1 hj with hj' | hj'
      · exact hpending job hj'
      · rw [List.mem_singleton.1 hj', h.factory_eq]
    | cancelled hp hq =>
      rw [(Queue.start_cancelled hq).2]
      exact ⟨fun job hj => hpending job (hp ▸ List.mem_cons_of_mem _ hj), hrunning⟩
    | refused hp hq =>
      rw [(Queue.start_refused hq).2.2]
      exact ⟨fun job hj => hpending job (hp ▸ List.mem_cons_of_mem _ hj), hrunning⟩
    | @started job rest q hp hq =>
      obtain ⟨-, _, -, rfl⟩ := Queue.start_started hq
      refine ⟨fun other ho => hpending other (hp ▸ List.mem_cons_of_mem _ ho), fun r hr => ?_⟩
      rcases List.mem_append.1 hr with hr' | hr'
      · exact hrunning r hr'
      · rw [List.mem_singleton.1 hr']
        exact hpending job (hp ▸ List.mem_cons_self)
    | finished => exact ⟨hpending, hrunning⟩
    | applied _ hr hq | outdated _ hr hq =>
      obtain ⟨documents, rfl⟩ := Queue.eq_of_deliver hr hq
      exact ⟨hpending, fun other ho => hrunning other (List.mem_filter.1 ho).1⟩

/-! ### What becomes of a job -/

theorem contains_of_not_isOutdated {context : Context} {documents : Documents}
    (h : context.isOutdated documents = false) :
    documents.contains context.request.file = true := by
  rw [Context.isOutdated, Bool.or_eq_false_iff] at h
  simpa using h.1

/-- A result that is applied is not outdated, and comes into the unit that its job writes. -/
theorem Run.of_applied (h : Run (.new compiler) log w) (hs : Step w (.applied r result) w') :
    .issued r ∈ log ∧ (w.queue.context r).isOutdated w.queue.documents = false ∧
      w'.queue.documents = w.queue.documents.modify r.file fun document =>
        document.incorporate r.writes result := by
  cases hs with
  | @applied number result rest running q hm hr hq =>
    have hmem := List.mem_of_find?_eq_some hr
    have hproc := (h.procedure_eq (Queue.isFresh_new _)).2 running hmem
    rw [Queue.deliver_of_find? hr, hproc, Queue.new, Procedure.finalize_ofKind] at hq
    refine ⟨h.issued_of_mem (Queue.isFresh_new _) (.inr (.inl (List.mem_map_of_mem hmem))), ?_⟩
    -- A job that is outdated, or whose document is closed, reports nothing as applied.
    split at hq
    · next heq =>
      split at heq <;> cases heq
      next hn =>
      rw [not_or] at hn
      cases hq
      exact ⟨by simpa using hn.1, rfl⟩
    · cases hq

theorem Step.mem_running_of_applied (hs : Step w (.applied r result) w') :
    r ∈ w.queue.running.map (·.job.request) := by
  cases hs with
  | applied hm hr hq => exact List.mem_map_of_mem (List.mem_of_find?_eq_some hr)

/-- A result that is dropped was outdated. -/
theorem Run.of_outdated (h : Run (.new compiler) log w) (hs : Step w (.outdated r result) w') :
    .issued r ∈ log ∧ (w.queue.context r).isOutdated w.queue.documents = true ∧
      w'.queue.documents = w.queue.documents := by
  cases hs with
  | @outdated number result rest running q hm hr hq =>
    have hmem := List.mem_of_find?_eq_some hr
    have hproc := (h.procedure_eq (Queue.isFresh_new _)).2 running hmem
    rw [Queue.deliver_of_find? hr, hproc, Queue.new, Procedure.finalize_ofKind] at hq
    refine ⟨h.issued_of_mem (Queue.isFresh_new _) (.inr (.inl (List.mem_map_of_mem hmem))), ?_⟩
    split at hq
    · cases hq
    · next heq =>
      split at heq <;> cases heq
      next ho =>
      cases hq
      refine ⟨?_, rfl⟩
      -- A closed document would make the request outdated as well.
      rcases ho with ho | ho
      · exact ho
      · rw [Context.isOutdated, Bool.or_eq_true]
        exact .inl ho

theorem Run.of_cancelled (h : Run (.new compiler) log w) (hs : Step w (.cancelled r) w') :
    .issued r ∈ log ∧ (w.queue.context r).isOutdated w.queue.documents = true ∧
      w'.queue.documents = w.queue.documents := by
  cases hs with
  | cancelled hp hq =>
    obtain ⟨ho, rfl⟩ := Queue.start_cancelled hq
    exact ⟨h.issued_of_mem (Queue.isFresh_new _) (.inl (by simp [hp])), ho, rfl⟩

theorem Run.of_started (h : Run (.new compiler) log w) (hs : Step w (.started r) w') :
    .issued r ∈ log ∧ (w.queue.context r).isOutdated w.queue.documents = false ∧
      w'.queue.documents = w.queue.documents := by
  cases hs with
  | started hp hq =>
    obtain ⟨ho, _, -, rfl⟩ := Queue.start_started hq
    exact ⟨h.issued_of_mem (Queue.isFresh_new _) (.inl (by simp [hp])), ho, rfl⟩

/-- The jobs of a new queue can be prepared. -/
theorem Run.not_refused (h : Run (.new compiler) log w) : ¬Step w (.refused r) w' := by
  rintro (_ | _ | _ | _ | _ | ⟨hp, hq⟩)
  rename_i job rest q
  -- The job is not outdated, so its document is open, and that is all that it needs.
  obtain ⟨ho, ⟨e, he⟩, -⟩ := Queue.start_refused hq
  have hproc := (h.procedure_eq (Queue.isFresh_new _)).1 job (hp ▸ List.mem_cons_self)
  obtain ⟨document, hd⟩ := Documents.contains_iff.1 (contains_of_not_isOutdated ho)
  rw [hproc] at he
  simp only [Queue.new, Queue.context, Procedure.prepare_ofKind] at he hd
  rw [hd] at he
  cases he

/-- The file whose document an event changes. -/
def Event.changed? : Event → Option Path
  | .opened file | .closed file _ | .updated file => some file
  | .applied request _ => some request.file
  | _ => none

/-- Only the document that an event is about changes with it. -/
theorem Run.get?_step (h : Run (.new compiler) log w) (hs : Step w e w') (file : Path)
    (hf : ∀ other, e.changed? = some other → ¬Path.Same file other) :
    w'.queue.documents.get? file = w.queue.documents.get? file := by
  cases hs with
  | opened ho =>
    obtain ⟨documents, hd, rfl⟩ := Queue.openDocument_eq_ok ho
    exact (Documents.get?_opened hd file).trans (if_neg (hf _ rfl))
  | closed hc =>
    obtain ⟨_, documents, hd, rfl⟩ := Queue.closeDocument_eq_ok hc
    exact (Documents.get?_closed hd file).trans (if_neg (hf _ rfl))
  | updated hu =>
    rw [Queue.updateDocument_eq_ok hu]
    exact (Documents.get?_modify (fun d => d.file_update _) _ file).trans (if_neg (hf _ rfl))
  | applied hm hr hq =>
    rw [(h.of_applied (.applied hm hr hq)).2.2]
    exact (Documents.get?_modify (fun d => d.file_incorporate _ _) _ file).trans (if_neg (hf _ rfl))
  | issued ha => obtain ⟨-, -, rfl⟩ := Queue.add_eq_ok ha; rfl
  | cancelled hp hq => rw [(h.of_cancelled (.cancelled hp hq)).2.2]
  | refused hp hq => exact absurd (.refused hp hq) h.not_refused
  | started hp hq => rw [(h.of_started (.started hp hq)).2.2]
  | finished => rfl
  | outdated hm hr hq => rw [(h.of_outdated (.outdated hm hr hq)).2.2]

/-- Whether a document is open behind an event, if this is known in front of it. -/
def Event.opensOr (file : Path) (isOpen : Bool) : Event → Bool
  | .opened other => Path.Same file other ∨ isOpen
  | .closed other _ => ¬Path.Same file other ∧ isOpen
  | _ => isOpen

/-- Documents are opened and closed by their own events only. -/
theorem Run.contains_step (h : Run (.new compiler) log w) (hs : Step w e w') (file : Path) :
    w'.queue.documents.contains file = e.opensOr file (w.queue.documents.contains file) := by
  have hkept := h.get?_step hs file
  cases hs with
  | @opened other directory part arguments q ho =>
    obtain ⟨documents, hd, rfl⟩ := Queue.openDocument_eq_ok ho
    simp only [Documents.contains, Documents.get?_opened hd, Event.opensOr, Document.new]
    by_cases hf : Path.Same file other <;> simp [hf]
  | @closed other q hc =>
    obtain ⟨document, documents, hd, rfl⟩ := Queue.closeDocument_eq_ok hc
    simp only [Documents.contains, Documents.get?_closed hd, Event.opensOr]
    by_cases hf : Path.Same file other <;> simp [hf]
  | updated hu =>
    rw [Queue.updateDocument_eq_ok hu]
    exact Documents.contains_modify (fun d => d.file_update _) _ _
  | applied hm hr hq =>
    rw [(h.of_applied (.applied hm hr hq)).2.2]
    exact Documents.contains_modify (fun d => d.file_incorporate _ _) _ _
  | _ => exact congrArg Option.isSome (hkept fun other hchanged => by cases hchanged)

/-- The document of a request is open, unless it was closed behind the request. -/
theorem Run.contains_of_issued (h : Run (.new compiler) log w) (hr : .issued r ∈ log)
    (hc : ∀ file n, Path.Same r.file file → ¬[.issued r, .closed file n].Sublist log) :
    w.queue.documents.contains r.file = true := by
  induction h with
  | start => cases hr
  | @step log w w' e h hs ih =>
    rcases List.mem_append.1 hr with hr' | hr'
    · have hopen := ih hr' fun file n hf hsub => hc file n hf (pair_sublist_concat.2 (.inl hsub))
      rw [h.contains_step hs, hopen]
      cases e with
      | opened other => simp [Event.opensOr]
      | closed other n =>
        have hf : ¬Path.Same r.file other := fun hf =>
          hc other n hf (pair_sublist_concat.2 (.inr ⟨hr', rfl⟩))
        simp [Event.opensOr, hf]
      | _ => rfl
    · -- Requests are refused for documents that are not open.
      cases List.mem_singleton.1 hr'
      cases hs with
      | issued ha => obtain ⟨hopen, -, rfl⟩ := Queue.add_eq_ok ha; exact hopen

/-- A request is outdated exactly if an event behind it supersedes it. -/
theorem Run.isOutdated_iff (h : Run (.new compiler) log w) (hr : .issued r ∈ log) :
    (w.queue.context r).isOutdated w.queue.documents = true ↔
      ∃ e, e.Supersedes Request.unit r ∧ [.issued r, e].Sublist log := by
  rw [Context.isOutdated, Bool.or_eq_true]
  refine ⟨fun ho => ?_, fun hsup => .inr ((h.isSuperseded_iff (Queue.isFresh_new _) hr).2 hsup)⟩
  rcases ho with ho | ho
  · -- The document is not open, so that it was closed behind the request.
    refine Classical.byContradiction fun hno => ?_
    have := h.contains_of_issued hr fun file n hf hsub => hno ⟨.closed file n, hf, hsub⟩
    simp [Queue.context, this] at ho
  · exact (h.isSuperseded_iff (Queue.isFresh_new _) hr).1 ho

/-! ### No stale results -/

/-- Requests for the supportive unit prefer it. -/
def Matching (log : Log) : Prop :=
  ∀ r, .issued r ∈ log → r.kind = .supportive → r.unit = .supportive

theorem Matching.writes_eq (hm : Matching log) (hr : .issued r ∈ log) : r.writes = r.unit := by
  cases hk : r.kind with
  | reparse => simp only [Request.writes, hk]
  | supportive => rw [hm r hr hk, Request.writes, hk]

/-- A result for a unit of a document has come into it, and nothing else has changed. -/
structure Stored (file : Path) (unit : UnitKind) (result : UpdateResult)
    (before after : Documents) : Prop where
  /-- The unit has the result, and the other unit has what it had. -/
  own : ∃ document document', before.get? file = some document ∧
    after.get? file = some document' ∧ document'.result? unit = some result ∧
      ∀ other, other ≠ unit → document'.result? other = document.result? other
  /-- Other documents are as they were. -/
  other : ∀ other, ¬Path.Same other file → after.get? other = before.get? other

theorem Stored.of_modify {documents : Documents} {file : Path} (unit : UnitKind)
    (result : UpdateResult) (hopen : documents.contains file = true) :
    Stored file unit result documents
      (documents.modify file fun document => document.incorporate unit result) where
  own := by
    obtain ⟨document, hd⟩ := Documents.contains_iff.1 hopen
    refine ⟨document, document.incorporate unit result, hd, ?_, ?_, fun other ho => ?_⟩
    · rw [Documents.get?_modify fun d => d.file_incorporate _ _, if_pos (.refl file), hd]
      rfl
    · rw [Document.result?_incorporate, if_pos rfl]
    · rw [Document.result?_incorporate, if_neg ho]
  other other ho := by rw [Documents.get?_modify fun d => d.file_incorporate _ _, if_neg ho]

theorem Run.stored (h : Run (.new compiler) log w) (hm : Matching log)
    (hs : Step w (.applied r result) w') :
    Stored r.file r.unit result w.queue.documents w'.queue.documents := by
  obtain ⟨hr, hcurrent, hd⟩ := h.of_applied hs
  rw [hd, hm.writes_eq hr]
  exact .of_modify _ _ (contains_of_not_isOutdated hcurrent)

/-- A result that is applied comes into the unit that its request prefers. There is no newer
    request about that unit, and the document was not closed behind the request. -/
theorem applied_is_current (h : Run (.new compiler) log w) (hm : Matching log)
    (hs : Step w (.applied r result) w') :
    Stored r.file r.unit result w.queue.documents w'.queue.documents ∧ .issued r ∈ log ∧
      (∀ s, .issued s ∈ log → Path.Same r.file s.file → r.unit = s.unit →
        s.issuedAt ≤ r.issuedAt) ∧
      ∀ file n, Path.Same r.file file → ¬[.issued r, .closed file n].Sublist log := by
  obtain ⟨hr, hcurrent, -⟩ := h.of_applied hs
  have hno : ¬∃ e, e.Supersedes Request.unit r ∧ [.issued r, e].Sublist log := by
    rw [← h.isOutdated_iff hr, hcurrent]
    simp
  refine ⟨h.stored hm hs, hr, fun s hslog hf hu => ?_, fun file n hf hsub =>
    hno ⟨.closed file n, hf, hsub⟩⟩
  -- A request with a greater number would stand further behind in the log.
  refine Nat.le_of_not_lt fun hlt => hno ⟨.issued s, ⟨hf, hu⟩, ?_⟩
  exact (h.pair_sublist_iff (Queue.isFresh_new _) hr hslog rfl rfl).2 hlt

/-- A first result comes into a document. -/
theorem applied_is_current_first :
    let file := Path.ofString "/p/a.cpp"
    let r : Request := ⟨.reparse, file, .primary, 1⟩
    ∃ w w', Run (.new "clang++") [.opened file, .issued r, .started r, .finished r ⟨1, [], []⟩] w ∧
      Step w (.applied r ⟨1, [], []⟩) w' ∧
        Stored file .primary ⟨1, [], []⟩ w.queue.documents w'.queue.documents := by
  intro file r
  have h : Run (.new "clang++") [] _ := .start
  have h := h.step (.opened (show Queue.openDocument _ file "p" [] (.ofString "/p") = .ok _
    from rfl))
  have h := h.step (.issued (show Queue.add _ (.new .reparse file .primary) = .ok _ from rfl))
  have h := h.step (.started rfl rfl)
  have h := h.step (.finished (List.mem_singleton_self _) List.not_mem_nil
    (show PreparedRun.Gives _ ⟨1, [], []⟩ from ⟨.empty, .ok ⟨[], []⟩, rfl⟩))
  have hm : Matching [.opened file, .issued r, .started r, .finished r ⟨1, [], []⟩] := by
    simp [Matching, r]
  let job : RunningJob :=
    ⟨1, ⟨.reparse, r, .running⟩, ⟨file, .primary, ⟨file, "clang++", [], .ofString "/p", 1⟩⟩⟩
  exact ⟨_, _, h, .applied (r := job) rfl rfl rfl,
    (applied_is_current h hm (.applied (r := job) rfl rfl rfl)).1⟩

end Workshop

end PrecompiledHeaders
