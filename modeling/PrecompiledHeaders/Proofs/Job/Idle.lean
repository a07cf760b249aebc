import Mathlib.Data.Set.Finite.Lemmas
import PrecompiledHeaders.Proofs.Job.Schedule
import PrecompiledHeaders.Proofs.Job.Supersession

/-!
# No update is lost

Results are taken in the order in which they arrive (`Run.arrived_eq`), one for each job, and what
has come into a document for a request that is not superseded stays there (`Run.held`). The newest
request for a unit of a document is never superseded, so when nothing is left to do, its result is
in the document (`updates_are_not_lost`).
-/

namespace PrecompiledHeaders.Workshop

variable {q₀ : Queue} {compiler : String} {log : Log} {w w' : Workshop} {e : Event} {r : Request}
  {result : UpdateResult}

/-! ### The results of workers -/

/-- The result that arrives with an event, with the number of its job. -/
def Event.arrived? : Event → Option (Nat × UpdateResult)
  | .finished request result => some (request.issuedAt, result)
  | _ => none

/-- The result that is taken with an event, with the number of its job. -/
def Event.taken? : Event → Option (Nat × UpdateResult)
  | .applied request result | .outdated request result => some (request.issuedAt, result)
  | _ => none

/-- Results are taken in the order in which they arrive. -/
theorem Run.arrived_eq (h₀ : q₀.IsFresh) (h : Run q₀ log w) :
    log.filterMap Event.arrived? = log.filterMap Event.taken? ++ w.mailbox := by
  induction h with
  | start => rfl
  | @step log w w' e h hs ih =>
    rw [List.filterMap_append, List.filterMap_append, ih]
    cases hs with
    | @finished r result hr hnot =>
      simp [List.filterMap_cons, Event.arrived?, Event.taken?, (h.accounts h₀).number r hr]
    | @applied number result rest r q hm hr hq | @outdated number result rest r q hm hr hq =>
      have hnum : r.number = number := by simpa using List.find?_some hr
      have := (h.accounts h₀).number r (List.mem_of_find?_eq_some hr)
      simp [List.filterMap_cons, Event.arrived?, Event.taken?, hm, ← this, hnum]
    | _ => simp [List.filterMap_cons, Event.arrived?, Event.taken?]

theorem taken_sublist_settled (log : Log) :
    ((log.filterMap Event.taken?).map Prod.fst).Sublist
      ((log.filterMap Event.settled?).map Request.issuedAt) := by
  induction log with
  | nil => exact .slnil
  | cons e log ih =>
    cases e with
    | applied r result | outdated r result => exact ih.cons_cons _
    | cancelled r | refused r => exact ih.cons _
    | _ => exact ih

/-- No two results are of one job. -/
theorem Run.nodup_arrived (h₀ : q₀.IsFresh) (h : Run q₀ log w) :
    ((log.filterMap Event.arrived?).map Prod.fst).Nodup := by
  -- Results that were taken settle different requests, and results in the mailbox are of jobs
  -- that are not settled yet.
  have haccounts := h.accounts h₀
  have hall := (haccounts.perm.map Request.issuedAt).nodup_iff.2 (h.numbers h₀).nodup_issued
  rw [List.append_assoc, List.map_append, List.map_append, List.nodup_append] at hall
  obtain ⟨-, hall, -⟩ := hall
  rw [List.nodup_append] at hall
  obtain ⟨-, hsettled, hdisjoint⟩ := hall
  rw [h.arrived_eq h₀, List.map_append, List.nodup_append]
  refine ⟨hsettled.sublist (taken_sublist_settled log), haccounts.nodup_mailbox, ?_⟩
  rintro a ha b hb rfl
  -- What is in the mailbox is of a job that is still running.
  obtain ⟨⟨number, result⟩, hmem, rfl⟩ := List.mem_map.1 hb
  obtain ⟨r, hr, hnum, -⟩ := haccounts.finished number result hmem
  have hrunning : number ∈ (w.queue.running.map (·.job.request)).map Request.issuedAt := by
    rw [← hnum, haccounts.number r hr, List.map_map]
    exact List.mem_map_of_mem hr
  exact hdisjoint number hrunning number ((taken_sublist_settled log).subset ha) rfl

theorem Run.issued_of_finished (h₀ : q₀.IsFresh) (h : Run q₀ log w)
    (hr : .finished r result ∈ log) : .issued r ∈ log := by
  induction h with
  | start => cases hr
  | @step log w w' e h hs ih =>
    refine List.mem_append_left _ ?_
    rcases List.mem_append.1 hr with hr' | hr'
    · exact ih hr'
    · cases List.mem_singleton.1 hr'
      cases hs with
      | finished hmem => exact h.issued_of_mem h₀ (.inr (.inl (List.mem_map_of_mem hmem)))

/-- Workers get through with a job once. -/
theorem Run.finished_once (h₀ : q₀.IsFresh) (h : Run q₀ log w) {result' : UpdateResult}
    (hr : .finished r result ∈ log) (hr' : .finished r result' ∈ log) : result = result' := by
  have hmem {x : UpdateResult} (hx : .finished r x ∈ log) :
      (r.issuedAt, x) ∈ log.filterMap Event.arrived? := List.mem_filterMap.2 ⟨_, hx, rfl⟩
  exact (Prod.ext_iff.1 (List.inj_on_of_nodup_map (h.nodup_arrived h₀) (hmem hr) (hmem hr') rfl)).2

/-- A result that is applied is that of the run of its job. -/
theorem Run.finished_of_applied (h₀ : q₀.IsFresh) (h : Run q₀ log w)
    (hr : .applied r result ∈ log) : .finished r result ∈ log := by
  have hissued : .issued r ∈ log :=
    h.issued_of_mem h₀ (.inr (.inr (List.mem_filterMap.2 ⟨_, hr, rfl⟩)))
  have harrived : (r.issuedAt, result) ∈ log.filterMap Event.arrived? := by
    rw [h.arrived_eq h₀]
    exact List.mem_append_left _ (List.mem_filterMap.2 ⟨_, hr, rfl⟩)
  obtain ⟨e, he, heq⟩ := List.mem_filterMap.1 harrived
  cases e with
  | finished s other =>
    obtain ⟨hnum, rfl⟩ := Prod.ext_iff.1 (Option.some.inj heq)
    cases h.eq_of_issuedAt_eq h₀ (h.issued_of_finished h₀ he) hissued hnum
    exact he
  | _ => cases heq

/-! ### What documents hold -/

/-- A request that is outdated stays outdated. -/
theorem Run.isOutdated_step (h : Run (.new compiler) log w) (hs : Step w e w')
    (hr : .issued r ∈ log) (ho : (w.queue.context r).isOutdated w.queue.documents = true) :
    (w'.queue.context r).isOutdated w'.queue.documents = true := by
  obtain ⟨e', hsup, hsub⟩ := (h.isOutdated_iff hr).1 ho
  exact ((h.step hs).isOutdated_iff (List.mem_append_left _ hr)).2
    ⟨e', hsup, hsub.trans (List.sublist_append_left _ _)⟩

/-- What is not outdated behind a step was not outdated in front of it. -/
theorem Run.current_of_step (h : Run (.new compiler) log w) (hs : Step w e w')
    (hr : .issued r ∈ log) (hcurrent : (w'.queue.context r).isOutdated w'.queue.documents = false) :
    (w.queue.context r).isOutdated w.queue.documents = false :=
  Bool.eq_false_iff.2 fun ho => by simp [h.isOutdated_step hs hr ho] at hcurrent

/-- Behind the result for a request that is not outdated, no result comes into the same unit. -/
theorem Run.unit_ne_of_applied {s : Request} {other : UpdateResult}
    (h : Run (.new compiler) log w) (hs : Step w (.applied s other) w')
    (hr : .applied r result ∈ log)
    (hcurrent : (w.queue.context r).isOutdated w.queue.documents = false)
    (hf : Path.Same r.file s.file) : r.unit ≠ s.unit := by
  have hissued : .issued r ∈ log := h.issued_of_mem (Queue.isFresh_new _)
    (.inr (.inr (List.mem_filterMap.2 ⟨_, hr, rfl⟩)))
  obtain ⟨hissued', -, -⟩ := h.of_applied hs
  intro hu
  -- Results come in the order of the requests, so the later one would be for a newer request.
  have hlt := (h.step hs).inOrder r s result other (pair_sublist_concat.2 (.inr ⟨hr, rfl⟩)) hf hu
  have hsub := (h.pair_sublist_iff (Queue.isFresh_new _) hissued hissued' rfl rfl).2 hlt
  have := (h.isOutdated_iff hissued).2 ⟨.issued s, ⟨hf, hu⟩, hsub⟩
  simp [this] at hcurrent

/-- A step leaves the result for a request where it is, unless the request is outdated then. -/
theorem Run.held_step (h : Run (.new compiler) log w) (hm : Matching log) (hs : Step w e w')
    (hr : .applied r result ∈ log)
    (hcurrent : (w.queue.context r).isOutdated w.queue.documents = false)
    (hopen : w'.queue.documents.contains r.file = true) {document : Document}
    (hd : w.queue.documents.get? r.file = some document)
    (hresult : document.result? r.unit = some result) :
    ∃ document', w'.queue.documents.get? r.file = some document' ∧
      document'.result? r.unit = some result := by
  by_cases hf : ∃ other, e.changed? = some other ∧ Path.Same r.file other
  swap
  · have hkept := h.get?_step hs r.file fun other ho hsame => hf ⟨other, ho, hsame⟩
    exact ⟨document, hkept.trans hd, hresult⟩
  obtain ⟨file, hchanged, hf⟩ := hf
  cases hs with
  | opened ho =>
    cases hchanged
    -- The document could not have been opened once more.
    obtain ⟨documents, hd', rfl⟩ := Queue.openDocument_eq_ok ho
    have hclosed := Documents.not_contains_of_opened hd'
    have hopen := Documents.contains_iff.2 ⟨document, hd⟩
    rw [Documents.contains_congr hf] at hopen
    exact absurd hopen (Bool.eq_false_iff.1 hclosed)
  | closed hc =>
    cases hchanged
    obtain ⟨_, documents, hd', rfl⟩ := Queue.closeDocument_eq_ok hc
    obtain ⟨_, hsome⟩ := Documents.contains_iff.1 hopen
    cases ((Documents.get?_closed hd' r.file).trans (if_pos hf)).symm.trans hsome
  | @updated _ arguments _ _ hu =>
    cases hchanged
    rw [Queue.updateDocument_eq_ok hu, Documents.get?_modify fun d => d.file_update _, if_pos hf, hd]
    exact ⟨_, rfl, (document.result?_update arguments r.unit).trans hresult⟩
  | @applied _ other _ running _ hmail hfind hq =>
    cases hchanged
    have hs := Step.applied hmail hfind hq
    obtain ⟨hissued, -, hd'⟩ := h.of_applied hs
    rw [hd', Documents.get?_modify fun d => d.file_incorporate _ _, if_pos hf, hd]
    refine ⟨_, rfl, ?_⟩
    rw [Document.result?_incorporate, hm.writes_eq hissued,
      if_neg (h.unit_ne_of_applied hs hr hcurrent hf), hresult]
  | _ => cases hchanged

/-- What has come into a document for a request stays there until the request is superseded. -/
theorem Run.held (h : Run (.new compiler) log w) (hm : Matching log)
    (hr : .applied r result ∈ log)
    (hcurrent : (w.queue.context r).isOutdated w.queue.documents = false) :
    ∃ document, w.queue.documents.get? r.file = some document ∧
      document.result? r.unit = some result := by
  induction h with
  | start => cases hr
  | @step log w w' e h hs ih =>
    have hm' : Matching log := fun s hs' => hm s (List.mem_append_left _ hs')
    rcases List.mem_append.1 hr with hr' | hr'
    · have hissued : .issued r ∈ log := h.issued_of_mem (Queue.isFresh_new _)
        (.inr (.inr (List.mem_filterMap.2 ⟨_, hr', rfl⟩)))
      have hbefore := h.current_of_step hs hissued hcurrent
      obtain ⟨document, hd, hresult⟩ := ih hm' hr' hbefore
      exact h.held_step hm' hs hr' hbefore (contains_of_not_isOutdated hcurrent) hd hresult
    · cases List.mem_singleton.1 hr'
      obtain ⟨document, document', -, hd, hresult, -⟩ := (h.stored hm' hs).own
      exact ⟨document', hd, hresult⟩

/-! ### The newest requests -/

/-- The part of a log behind the last opening of a document. -/
def SinceOpened (file : Path) (log after : Log) : Prop :=
  ∃ before other, log = before ++ .opened other :: after ∧ Path.Same file other ∧
    ∀ other, .opened other ∈ after → ¬Path.Same file other

/-- The newest request for a unit of a document in a log. -/
structure IsNewest (file : Path) (unit : UnitKind) (log : Log) (r : Request) : Prop where
  issued : .issued r ∈ log
  same : Path.Same file r.file
  prefers : unit = r.unit
  newest : ∀ s, .issued s ∈ log → Path.Same file s.file → unit = s.unit → s.issuedAt ≤ r.issuedAt

theorem exists_isNewest {file : Path} {unit : UnitKind} {log : Log} {s : Request}
    (hs : .issued s ∈ log) (hf : Path.Same file s.file) (hu : unit = s.unit) :
    ∃ r, IsNewest file unit log r := by
  let requests : Set Request :=
    {r | .issued r ∈ log ∧ Path.Same file r.file ∧ unit = r.unit}
  have hfinite : requests.Finite := (log.filterMap Event.issued?).finite_toSet.subset
    fun r hr => Event.mem_issued?.2 hr.1
  obtain ⟨r, ⟨hr, hrf, hru⟩, hmax⟩ :=
    requests.exists_max_image Request.issuedAt hfinite ⟨s, hs, hf, hu⟩
  exact ⟨r, hr, hrf, hru, fun s hs hf hu => hmax s ⟨hs, hf, hu⟩⟩

/-- A document that is open has not been closed since it was opened. -/
theorem Run.not_closed_since (h : Run (.new compiler) log w) {file : Path} {after : Log}
    (hafter : SinceOpened file log after) (hopen : w.queue.documents.contains file = true) :
    ∀ other n, .closed other n ∈ after → ¬Path.Same file other := by
  induction h generalizing after with
  | start =>
    obtain ⟨before, other, heq, -⟩ := hafter
    exact absurd heq (by simp)
  | @step log w w' e h hs ih =>
    obtain ⟨before, opened, heq, hf, hnone⟩ := hafter
    rcases List.eq_nil_or_concat after with rfl | ⟨after', e', rfl⟩
    · exact fun _ _ hmem => absurd hmem List.not_mem_nil
    rw [List.concat_eq_append] at heq hnone ⊢
    rw [← List.cons_append, ← List.append_assoc] at heq
    obtain ⟨rfl, heq'⟩ := List.append_inj' heq rfl
    cases heq'
    -- The last event has not closed the document, and the document was open in front of it.
    rw [h.contains_step hs] at hopen
    intro other n hmem hsame
    have hlast : e ≠ .closed other n := by
      rintro rfl
      simp [Event.opensOr, hsame] at hopen
    have hbefore : w.queue.documents.contains file = true := by
      cases e with
      | opened other' =>
        have := hnone other' (by simp)
        simpa [Event.opensOr, this] using hopen
      | closed other' n' =>
        simp only [Event.opensOr, decide_eq_true_eq] at hopen
        exact hopen.2
      | _ => exact hopen
    rcases List.mem_append.1 hmem with hmem' | hmem'
    · exact ih ⟨before, opened, rfl, hf, fun o ho => hnone o (List.mem_append_left _ ho)⟩ hbefore
        other n hmem' hsame
    · exact hlast (List.mem_singleton.1 hmem').symm

/-- The newest request for a unit of an open document is not superseded. -/
theorem Run.newest_is_current (h : Run (.new compiler) log w) {file : Path} {unit : UnitKind}
    {after : Log} (hafter : SinceOpened file log after)
    (hopen : w.queue.documents.contains file = true) (hr : IsNewest file unit after r) :
    .issued r ∈ log ∧ (w.queue.context r).isOutdated w.queue.documents = false := by
  have hclosed := h.not_closed_since hafter hopen
  obtain ⟨before, opened, rfl, -, -⟩ := hafter
  have hmem {e : Event} (he : e ∈ after) : e ∈ before ++ .opened opened :: after :=
    List.mem_append_right _ (List.mem_cons_of_mem _ he)
  refine ⟨hmem hr.issued, Bool.eq_false_iff.2 fun ho => ?_⟩
  obtain ⟨e, hsup, hsub⟩ := (h.isOutdated_iff (hmem hr.issued)).1 ho
  obtain ⟨n, hn⟩ := (Event.supersedes_iff.1 hsup).number
  have he := hsub.subset (List.mem_cons_of_mem _ List.mem_cons_self)
  have hlt := (h.pair_sublist_iff (Queue.isFresh_new _) (hmem hr.issued) he rfl hn).1 hsub
  -- Its number is greater, so it does not stand in front of the opening.
  have hafter : e ∈ after := by
    rcases List.mem_append.1 he with hbefore | hrest
    · have hpair := (List.singleton_sublist.2 hbefore).append
        (List.singleton_sublist.2 (List.mem_cons_of_mem (.opened opened) hr.issued))
      have := (h.pair_sublist_iff (Queue.isFresh_new _) he (hmem hr.issued) hn rfl).1 hpair
      omega
    · rcases List.mem_cons.1 hrest with rfl | hrest
      · exact hsup.elim
      · exact hrest
  -- Neither a newer request nor a closing stands behind the opening.
  cases e with
  | issued s =>
    cases hn
    have := hr.newest s hafter (hr.same.trans hsup.1) (hr.prefers.trans hsup.2)
    omega
  | closed other n => exact hclosed other n hafter (hr.same.trans hsup)
  | _ => exact hsup

/-! ### Waits -/

theorem Run.not_mem_refused (h : Run (.new compiler) log w) : .refused r ∉ log := by
  induction h with
  | start => exact List.not_mem_nil
  | step h hs ih =>
    intro hr
    rcases List.mem_append.1 hr with hr' | hr'
    · exact ih hr'
    · cases List.mem_singleton.1 hr'
      exact h.not_refused hs

theorem Run.not_dropped (h : Run (.new compiler) log w) (hr : .issued r ∈ log)
    (hcurrent : (w.queue.context r).isOutdated w.queue.documents = false) {d : Event}
    (hd : d ∈ log) : ¬d.Drops r := by
  intro hdrops
  obtain ⟨e, hsup, hsub⟩ := h.droppedLate r d hd hdrops
  have hpair : [.issued r, e].Sublist log :=
    ((List.Sublist.refl [Event.issued r, e]).append (List.nil_sublist [d])).trans hsub
  simp [(h.isOutdated_iff hr).2 ⟨e, hsup, hpair⟩] at hcurrent

/-- When nothing is left to do, the result for a request that is not superseded was applied. -/
theorem Run.applied_of_idle (h : Run (.new compiler) log w) (hp : w.queue.pending = [])
    (hrunning : w.queue.running = []) (hr : .issued r ∈ log)
    (hcurrent : (w.queue.context r).isOutdated w.queue.documents = false) :
    ∃ result, .applied r result ∈ log := by
  have hperm := (h.accounts (Queue.isFresh_new _)).perm
  rw [hp, hrunning] at hperm
  have hsettled : r ∈ log.filterMap Event.settled? := hperm.mem_iff.2 (Event.mem_issued?.2 hr)
  obtain ⟨e, he, heq⟩ := List.mem_filterMap.1 hsettled
  cases e with
  | applied s result => cases heq; exact ⟨result, he⟩
  | cancelled s => cases heq; exact absurd rfl (h.not_dropped hr hcurrent he)
  | outdated s result => cases heq; exact absurd rfl (h.not_dropped hr hcurrent he)
  | refused s => exact absurd he h.not_mem_refused
  | _ => cases heq

/-- A wait comes to its end, and then nothing is pending or running. For each unit of each document
    that is open, the newest of the requests since the document was opened was neither cancelled
    nor outdated, and the document holds the result of the run for it. -/
theorem updates_are_not_lost (h : Run (.new compiler) log w) (hm : Matching log) :
    (∃ w', Waits w.process w') ∧ ∀ w', Waits w.process w' →
      w'.queue.pending = [] ∧ w'.queue.running = [] ∧
      ∃ log', Run (.new compiler) (log ++ log') w' ∧ (∀ e ∈ log', e.IsWork) ∧
        ∀ file document unit after, w'.queue.documents.get? file = some document →
          SinceOpened file (log ++ log') after →
          (∃ s, .issued s ∈ after ∧ Path.Same file s.file ∧ unit = s.unit) →
          ∃ r result, IsNewest file unit after r ∧
            (∀ other, .finished r other ∈ log ++ log' ↔ other = result) ∧
            .cancelled r ∉ log ++ log' ∧ (∀ other, .outdated r other ∉ log ++ log') ∧
            document.result? unit = some result := by
  -- A wait begins with a round of work. Neither the round nor what is behind it makes requests, so
  -- those of the whole log still prefer what they write.
  obtain ⟨log₁, h₁, hwork₁, -⟩ := h.process (Queue.isFresh_new _)
  refine ⟨h₁.exists_waits (Queue.isFresh_new _) (pending_process w) rfl, fun w' hw => ?_⟩
  obtain ⟨log₂, h₂, hwork₂, hp, hrunning⟩ :=
    hw.run (Queue.isFresh_new _) h₁ (pending_process w)
  rw [List.append_assoc] at h₂
  have hwork : ∀ e ∈ log₁ ++ log₂, e.IsWork := fun e he =>
    (List.mem_append.1 he).elim (hwork₁ e) (hwork₂ e)
  have hm₂ : Matching (log ++ (log₁ ++ log₂)) := fun s hs => by
    rcases List.mem_append.1 hs with hs' | hs'
    · exact hm s hs'
    · exact (hwork _ hs').elim
  refine ⟨hp, hrunning, log₁ ++ log₂, h₂, hwork, fun file document unit after hd hafter => ?_⟩
  rintro ⟨s, hs, hsf, hsu⟩
  obtain ⟨r, hr⟩ := exists_isNewest hs hsf hsu
  have hopen := Documents.contains_iff.2 ⟨document, hd⟩
  obtain ⟨hissued, hcurrent⟩ := h₂.newest_is_current hafter hopen hr
  obtain ⟨result, happlied⟩ := h₂.applied_of_idle hp hrunning hissued hcurrent
  obtain ⟨document', hd', hresult⟩ := h₂.held hm₂ happlied hcurrent
  rw [← Documents.get?_congr hr.same, hd] at hd'
  cases hd'
  have hfinished := h₂.finished_of_applied (Queue.isFresh_new _) happlied
  refine ⟨r, result, hr, fun other => ⟨fun ho => ?_, fun ho => ho ▸ hfinished⟩, fun hc => ?_,
    fun other ho => ?_, hr.prefers ▸ hresult⟩
  · exact h₂.finished_once (Queue.isFresh_new _) ho hfinished
  · exact h₂.not_dropped hissued hcurrent hc rfl
  · exact h₂.not_dropped hissued hcurrent ho rfl

/-- The result for the only request is held behind a wait. -/
theorem updates_are_not_lost_single :
    let file := Path.ofString "/p/a.cpp"
    ∃ w w' document, Run (.new "clang++") [.opened file, .issued ⟨.reparse, file, .primary, 1⟩] w ∧
      Waits w.process w' ∧ w'.queue.documents.get? file = some document ∧
        ∃ result, document.result? .primary = some result := by
  intro file
  let r : Request := ⟨.reparse, file, .primary, 1⟩
  let job : RunningJob :=
    ⟨1, ⟨.reparse, r, .running⟩, ⟨file, .primary, ⟨file, "clang++", [], .ofString "/p", 1⟩⟩⟩
  have h : Run (.new "clang++") [] _ := .start
  have h := h.step (.opened (show Queue.openDocument _ file "p" [] (.ofString "/p") = .ok _
    from rfl))
  have h := h.step (.issued (show Queue.add _ (.new .reparse file .primary) = .ok _ from rfl))
  have hgives : job.run.Gives ⟨1, [], []⟩ := ⟨.empty, .ok ⟨[], []⟩, rfl⟩
  have held {w : Workshop} (h : Run (.new "clang++") [.opened file, .issued r] w)
      (hidle : ∃ w' document, Waits w.process w' ∧
        w'.queue.documents.get? file = some document) :
      ∃ w w' document, Run (.new "clang++") [.opened file, .issued r] w ∧ Waits w.process w' ∧
        w'.queue.documents.get? file = some document ∧
          ∃ result, document.result? .primary = some result := by
    obtain ⟨w', document, hw, hd⟩ := hidle
    have hm : Matching [.opened file, .issued r] := by simp [Matching, r]
    obtain ⟨-, -, log', -, hwork, hall⟩ := (updates_are_not_lost h hm).2 w' hw
    have hsince : SinceOpened file ([.opened file, .issued r] ++ log') (.issued r :: log') := by
      refine ⟨[], file, rfl, .refl file, fun other ho => ?_⟩
      rcases List.mem_cons.1 ho with heq | hin
      · cases heq
      · exact (hwork _ hin).elim
    obtain ⟨_, result, -, -, -, -, hresult⟩ :=
      hall file document .primary _ hd hsince ⟨r, List.mem_cons_self, .refl file, rfl⟩
    exact ⟨w, w', document, h, hw, hd, result, hresult⟩
  exact held h ⟨_, _, .work (.finished (r := job) (List.mem_singleton_self _) List.not_mem_nil
    hgives) (.receive rfl (.idle rfl)), rfl⟩

end PrecompiledHeaders.Workshop
