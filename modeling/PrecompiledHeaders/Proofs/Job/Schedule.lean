import PrecompiledHeaders.Proofs.Job.Log

/-!
# Rounds of work, and waiting

A round of work (`Workshop.process`) and a wait until nothing is left to do (`Workshop.Waits`) are
runs in which no client does anything, and their reports count what is in the log.

* `Run.process`, `Waits.run`: rounds and waits are runs;
* `Run.exists_waits`: a wait comes to its end if workers get through with what they do;
* `Run.waits_drain`: `Queue.drain` is a wait.
-/

namespace PrecompiledHeaders.Workshop

variable {q₀ : Queue} {log : Log} {w w' : Workshop}

/-- What an event counts for in a report. -/
def Event.report : Event → Report
  | .started _ => { started := 1 }
  | .applied _ _ => { applied := 1 }
  | .outdated _ _ => { outdated := 1 }
  | .cancelled _ => { cancelled := 1 }
  | .refused _ => { failed := 1 }
  | _ => {}

/-- Whether an event is the work of the queue or of workers, and not of clients. -/
def Event.IsWork : Event → Prop
  | .opened _ | .closed _ _ | .updated _ | .issued _ => False
  | _ => True

/-- The report of what has happened. -/
def Log.report (log : Log) : Report := log.foldr (fun e report => e.report.add report) {}

theorem Log.report_cons (e : Event) (log : Log) :
    Log.report (e :: log) = e.report.add (Log.report log) := rfl

theorem Log.report_append (log log' : Log) :
    Log.report (log ++ log') = (Log.report log).add (Log.report log') := by
  induction log with
  | nil => simp [Log.report, Report.add]
  | cons e log ih =>
    rw [List.cons_append, Log.report_cons, ih, Log.report_cons]
    simp [Report.add, Nat.add_assoc]

/-! ### Rounds -/

/-- The results in the mailbox are those of running jobs. -/
theorem Run.exists_running (h₀ : q₀.IsFresh) (h : Run q₀ log w) {number : Nat}
    {result : UpdateResult} (hm : (number, result) ∈ w.mailbox) :
    ∃ r, w.queue.running.find? (fun other => other.number = number) = some r := by
  obtain ⟨r, hr, hnum, -⟩ := (h.accounts h₀).finished number result hm
  rw [← Option.isSome_iff_exists, List.find?_isSome]
  exact ⟨r, hr, by simpa using hnum⟩

/-- Taking the oldest result is a step. -/
theorem Run.exists_deliver (h₀ : q₀.IsFresh) (h : Run q₀ log w) {number : Nat}
    {result : UpdateResult} {rest : List (Nat × UpdateResult)}
    (hm : w.mailbox = (number, result) :: rest) :
    ∃ e, Step w e ⟨(w.queue.deliver number result).2, rest⟩ ∧ e.IsWork ∧
      (w.queue.deliver number result).1 = e.report := by
  obtain ⟨r, hr⟩ := h.exists_running h₀ (hm ▸ List.mem_cons_self)
  obtain ⟨documents, -, hd | hd⟩ := Queue.deliver_eq result hr
  · exact ⟨_, .applied hm hr (Prod.ext hd rfl), trivial, hd⟩
  · exact ⟨_, .outdated hm hr (Prod.ext hd rfl), trivial, hd⟩

/-- Taking up the oldest pending job is a step. -/
theorem exists_start {job : Job} {rest : List Job} (hp : w.queue.pending = job :: rest) :
    ∃ e, Step w e { w with queue := ({ w.queue with pending := rest }.start job).2 } ∧ e.IsWork ∧
      ({ w.queue with pending := rest }.start job).1 = e.report := by
  rcases Queue.start_report { w.queue with pending := rest } job with hs | hs | hs
  · exact ⟨_, .cancelled hp (Prod.ext hs rfl), trivial, hs⟩
  · exact ⟨_, .refused hp (Prod.ext hs rfl), trivial, hs⟩
  · exact ⟨_, .started hp (Prod.ext hs rfl), trivial, hs⟩

theorem Run.deliverAll (h₀ : q₀.IsFresh) (h : Run q₀ log w) :
    ∃ log', Run q₀ (log ++ log') ⟨(w.queue.deliverAll w.mailbox).2, []⟩ ∧
      (∀ e ∈ log', e.IsWork) ∧ (w.queue.deliverAll w.mailbox).1 = Log.report log' := by
  obtain ⟨q, mailbox⟩ := w
  induction mailbox generalizing q log with
  | nil => exact ⟨[], (List.append_nil log).symm ▸ h, by simp, rfl⟩
  | cons arrived rest ih =>
    have hm : Workshop.mailbox ⟨q, arrived :: rest⟩ = arrived :: rest := rfl
    obtain ⟨e, hs, hwork, hreport⟩ := h.exists_deliver h₀ hm
    obtain ⟨log', hrun, hall, hrest⟩ := ih _ (h.step hs)
    refine ⟨e :: log', List.append_cons log e log' ▸ hrun, ?_, ?_⟩
    · simpa using ⟨hwork, hall⟩
    · rw [Log.report_cons, ← hreport, ← hrest]
      rfl

theorem Run.startAll (h : Run q₀ log w) :
    ∃ log', Run q₀ (log ++ log') { w with queue := w.queue.startPending.2 } ∧
      (∀ e ∈ log', e.IsWork) ∧ w.queue.startPending.1 = Log.report log' := by
  obtain ⟨q, mailbox⟩ := w
  unfold Queue.startPending
  generalize hp : q.pending = pending
  induction pending generalizing q log with
  | nil =>
    refine ⟨[], ?_, by simp, rfl⟩
    have : { q with pending := [] } = q := by rw [← hp]
    rw [List.append_nil]
    exact this.symm ▸ h
  | cons job rest ih =>
    obtain ⟨e, hs, hwork, hreport⟩ := exists_start (w := ⟨q, mailbox⟩) hp
    -- The start of a job neither sees nor changes what else is pending.
    have hrest := Queue.start_pending q rest job
    have hnone := Queue.start_pending q [] job
    rw [hrest] at hs hreport
    obtain ⟨log', hrun, hall, hothers⟩ := ih _ (h.step hs) rfl
    refine ⟨e :: log', ?_, by simpa using ⟨hwork, hall⟩, ?_⟩
    · simpa [Queue.startAll, hnone] using hrun
    · rw [Log.report_cons, ← hreport, ← hothers]
      simp [Queue.startAll, hnone]

/-- A round of work is a run, and its report is right. -/
theorem Run.process (h₀ : q₀.IsFresh) (h : Run q₀ log w) :
    ∃ log', Run q₀ (log ++ log') w.process ∧ (∀ e ∈ log', e.IsWork) ∧
      (w.queue.process w.mailbox).1 = Log.report log' := by
  obtain ⟨log₁, h₁, hwork₁, hreport₁⟩ := h.deliverAll h₀
  obtain ⟨log₂, h₂, hwork₂, hreport₂⟩ := h₁.startAll
  refine ⟨log₁ ++ log₂, List.append_assoc .. ▸ h₂, ?_, ?_⟩
  · intro e he
    exact (List.mem_append.1 he).elim (hwork₁ e) (hwork₂ e)
  · rw [Log.report_append, ← hreport₁, ← hreport₂]
    rfl

/-! ### What rounds leave to do -/

theorem pending_deliver (q : Queue) (number : Nat) (result : UpdateResult) :
    (q.deliver number result).2.pending = q.pending := by
  cases hr : q.running.find? fun r => r.number = number with
  | none => simp only [Queue.deliver, hr]
  | some r =>
    obtain ⟨documents, hd, -⟩ := Queue.deliver_eq result hr
    rw [hd]

theorem running_deliver (q : Queue) (number : Nat) (result : UpdateResult) :
    (q.deliver number result).2.running = q.running.filter fun r => r.number ≠ number := by
  cases hr : q.running.find? fun r => r.number = number with
  | none =>
    simp only [Queue.deliver, hr]
    rw [List.filter_eq_self.2]
    simpa using hr
  | some r =>
    obtain ⟨documents, hd, -⟩ := Queue.deliver_eq result hr
    rw [hd]

theorem deliverAll_cons (q : Queue) (first : Nat × UpdateResult) (rest : List (Nat × UpdateResult)) :
    (q.deliverAll (first :: rest)).2 = ((q.deliver first.1 first.2).2.deliverAll rest).2 := rfl

theorem startAll_cons (q : Queue) (job : Job) (rest : List Job) :
    (q.startAll (job :: rest)).2 = ((q.start job).2.startAll rest).2 := rfl

theorem pending_deliverAll (q : Queue) (arrived : List (Nat × UpdateResult)) :
    (q.deliverAll arrived).2.pending = q.pending := by
  induction arrived generalizing q with
  | nil => rfl
  | cons first rest ih => rw [deliverAll_cons, ih, pending_deliver]

theorem running_deliverAll (q : Queue) (arrived : List (Nat × UpdateResult)) :
    (q.deliverAll arrived).2.running =
      q.running.filter fun r => r.number ∉ arrived.map Prod.fst := by
  induction arrived generalizing q with
  | nil => simp [Queue.deliverAll]
  | cons first rest ih =>
    rw [deliverAll_cons, ih, running_deliver, List.filter_filter]
    refine List.filter_congr fun r _ => ?_
    rw [Bool.eq_iff_iff]
    simp [and_comm]

theorem pending_start (q : Queue) (job : Job) : (q.start job).2.pending = q.pending := by
  rw [Queue.start_eq]
  split
  · rfl
  · split <;> rfl

theorem pending_startAll (q : Queue) (jobs : List Job) :
    (q.startAll jobs).2.pending = q.pending := by
  induction jobs generalizing q with
  | nil => rfl
  | cons job rest ih => rw [startAll_cons, ih, pending_start]

theorem startPending_eq {q : Queue} (hp : q.pending = []) : q.startPending.2 = q := by
  rw [Queue.startPending, hp, Queue.startAll, ← hp]

/-- Behind a round of work nothing is pending. -/
theorem pending_process (w : Workshop) : w.process.queue.pending = [] := pending_startAll _ _

/-! ### Waiting -/

/-- A wait is a run, and leaves nothing to do. -/
theorem Waits.run (h₀ : q₀.IsFresh) (hw : Waits w w') (h : Run q₀ log w)
    (hp : w.queue.pending = []) :
    ∃ log', Run q₀ (log ++ log') w' ∧ (∀ e ∈ log', e.IsWork) ∧ w'.queue.pending = [] ∧
      w'.queue.running = [] := by
  induction hw generalizing log with
  | idle hr => exact ⟨[], (List.append_nil log).symm ▸ h, by simp, hp, hr⟩
  | @work w w₁ w' request result hs _ ih =>
    have hp₁ : w₁.queue.pending = [] := by cases hs; exact hp
    obtain ⟨log', hrun, hwork, hdone⟩ := ih (h.step hs) hp₁
    refine ⟨.finished request result :: log', List.append_cons .. ▸ hrun, ?_, hdone⟩
    simpa [Event.IsWork] using hwork
  | receive hm _ ih =>
    obtain ⟨e, hs, he, -⟩ := h.exists_deliver h₀ hm
    obtain ⟨log₁, h₁, hwork₁, -⟩ := (h.step hs).process h₀
    obtain ⟨log₂, h₂, hwork₂, hdone⟩ := ih h₁ (pending_process _)
    refine ⟨e :: (log₁ ++ log₂), ?_, ?_, hdone⟩
    · simpa using h₂
    · simpa using ⟨he, fun e' h' => h'.elim (hwork₁ e') (hwork₂ e')⟩

/-- Any computation can give a result. -/
theorem exists_gives (run : PreparedRun) : ∃ result, run.Gives result :=
  ⟨_, .empty, .ok ⟨[], []⟩, rfl⟩

/-- A wait comes to its end if workers get through with what they do. -/
theorem Run.exists_waits (h₀ : q₀.IsFresh) (h : Run q₀ log w) (hp : w.queue.pending = [])
    (hm : w.mailbox = []) : ∃ w', Waits w w' := by
  -- By induction on the number of running jobs: nothing is pending, so a round starts none.
  generalize hn : w.queue.running.length = n
  induction n using Nat.strongRecOn generalizing log w with
  | ind n ih =>
    cases hr : w.queue.running with
    | nil => exact ⟨w, .idle hr⟩
    | cons r rest =>
      obtain ⟨result, hgives⟩ := exists_gives r.run
      have hs : Step w (.finished r.job.request result) _ :=
        .finished (hr ▸ List.mem_cons_self) (by simp [hm]) hgives
      have hm₁ : w.mailbox ++ [(r.number, result)] = (r.number, result) :: [] := by simp [hm]
      obtain ⟨e, hs₁, -⟩ := (h.step hs).exists_deliver h₀ hm₁
      obtain ⟨log', hrun, -⟩ := ((h.step hs).step hs₁).process h₀
      -- One job is running less.
      have hlt : (Workshop.process ⟨(w.queue.deliver r.number result).2, []⟩).queue.running.length < n := by
        have hpending := (pending_deliver w.queue r.number result).trans hp
        rw [Workshop.process, Queue.process, Queue.deliverAll, startPending_eq hpending, running_deliver,
          ← hn, List.length_filter_lt_length_iff_exists]
        exact ⟨r, hr ▸ List.mem_cons_self, by simp⟩
      obtain ⟨w', hw⟩ := ih _ hlt hrun (pending_process _) rfl rfl
      exact ⟨w', .work hs (.receive hm₁ hw)⟩

/-! ### Working a queue off -/

theorem map_fst_runAll (frontend : Frontend) (tree : FileTree) (table : PathTable)
    (jobs : List RunningJob) :
    (Queue.runAll frontend tree table jobs).1.map Prod.fst = jobs.map RunningJob.number := by
  induction jobs generalizing tree table with
  | nil => rfl
  | cons r rest ih => simp [Queue.runAll, ih]

/-- Running jobs one after another is work that a wait may begin with. -/
theorem Waits.runAll {q : Queue} (frontend : Frontend) (tree : FileTree) (table : PathTable)
    {jobs : List RunningJob} {mailbox : List (Nat × UpdateResult)}
    (hjobs : ∀ r ∈ jobs, r ∈ q.running)
    (hn : (mailbox.map Prod.fst ++ jobs.map RunningJob.number).Nodup)
    (hw : Waits ⟨q, mailbox ++ (Queue.runAll frontend tree table jobs).1⟩ w') :
    Waits ⟨q, mailbox⟩ w' := by
  induction jobs generalizing mailbox tree table with
  | nil => simpa [Queue.runAll] using hw
  | cons r rest ih =>
    have hnot : r.number ∉ mailbox.map Prod.fst := by
      rw [List.nodup_append] at hn
      exact fun hmem => hn.2.2 _ hmem _ (by simp) rfl
    have hgives : r.run.Gives (r.run.input.reparse frontend tree table).1 := ⟨table, _, rfl⟩
    have hw : Waits ⟨q, (mailbox ++ [(r.number, (r.run.input.reparse frontend tree table).1)]) ++
        (Queue.runAll frontend (r.run.input.reparse frontend tree table).2.1
          (r.run.input.reparse frontend tree table).2.2 rest).1⟩ w' := by
      rw [List.append_assoc]
      exact hw
    -- A worker runs the first job, and the induction goes on with its result in the mailbox.
    refine .work (.finished (hjobs r List.mem_cons_self) hnot hgives) (ih _ _ ?_ ?_ hw)
    · exact fun other ho => hjobs other (List.mem_cons_of_mem _ ho)
    · simpa using hn

/-- Working a queue off is a wait in which the jobs are run one after another. -/
theorem Run.waits_drain (h₀ : q₀.IsFresh) {q : Queue} (h : Run q₀ log ⟨q, []⟩)
    (frontend : Frontend) (tree : FileTree) (table : PathTable) :
    Waits (Workshop.process ⟨q, []⟩) ⟨(q.drain frontend tree table).2.1, []⟩ := by
  obtain ⟨log', hrun, -⟩ := h.process h₀
  have hp : (q.process []).2.pending = [] := pending_process ⟨q, []⟩
  have hn := (hrun.accounts h₀).nodup_running (hrun.numbers h₀)
  change Waits ⟨(q.process []).2, []⟩ ⟨((q.process []).2.process
    (Queue.runAll frontend tree table (q.process []).2.running).1).2, []⟩
  refine Waits.runAll frontend tree table (fun _ hr => hr) hn ?_
  have hmap := map_fst_runAll frontend tree table (q.process []).2.running
  generalize (Queue.runAll frontend tree table (q.process []).2.running).1 = results at hmap ⊢
  -- Behind the second round, nothing is running.
  have hdone : ((q.process []).2.process results).2.running = [] := by
    have hpending := (pending_deliverAll (q.process []).2 results).trans hp
    change ((q.process []).2.deliverAll results).2.startPending.2.running = []
    rw [startPending_eq hpending, running_deliverAll, hmap, List.filter_eq_nil_iff]
    simpa using fun r hr => ⟨r, hr, rfl⟩
  -- Without a result there is nothing to receive, and the second round changes nothing.
  cases results with
  | nil =>
    have hsame : ((q.process []).2.process []).2 = (q.process []).2 := startPending_eq hp
    rw [hsame] at hdone ⊢
    exact .idle hdone
  | cons first rest => exact .receive rfl (.idle hdone)

end PrecompiledHeaders.Workshop
