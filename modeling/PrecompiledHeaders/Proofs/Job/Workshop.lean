import PrecompiledHeaders.Job.Queue
import PrecompiledHeaders.Proofs.Job.Views

/-!
# Queues at work

A *workshop* is a queue with its workers: the jobs that were started are being run, in any order
and for any time, and the results of those that are through lie in a mailbox until the queue
takes them.

Things happen one at a time (`Workshop.Step`). Clients call the queue; a worker gets through with
a run; the queue takes the oldest result from the mailbox, or the oldest of the pending jobs. Each
step that the queue takes is one call of its own functions and leaves an `Event`. Calls that
fail leave no queue behind, so they are no steps. A `Run` is a sequence of steps, with the log of
the events.

A client can also let the queue work: `Workshop.process` is one round, and `Workshop.Waits` is the
loop behind a wait until nothing is left to do. Both are runs, see
`PrecompiledHeaders.Proofs.Job.Schedule`.
-/

namespace PrecompiledHeaders

/-- Whether a run may give a result. The files and the ids of headers are those at the time when
    it is run, so the frontend may find anything. -/
def PreparedRun.Gives (run : PreparedRun) (result : UpdateResult) : Prop :=
  ∃ table found, (run.input.resultOf table found).1 = result

/-- The unit that the job for a request reparses. -/
def Request.writes (request : Request) : UnitKind :=
  match request.kind with
  | .reparse => request.unit
  | .supportive => .supportive

/-- A queue, and the results that it has not taken yet, the oldest first. -/
structure Workshop where
  /-- The queue. -/
  queue : Queue
  /-- The results, with the numbers of their jobs. -/
  mailbox : List (Nat × UpdateResult)

namespace Workshop

/-- Something that happens in a workshop. -/
inductive Event
  /-- A document is opened. -/
  | opened (file : Path)
  /-- A document is closed, which uses up a number. -/
  | closed (file : Path) (number : Nat)
  /-- A document is changed. -/
  | updated (file : Path)
  /-- A request is issued. -/
  | issued (request : Request)
  /-- The job of a request is dropped before its start. -/
  | cancelled (request : Request)
  /-- The job of a request cannot be prepared. -/
  | refused (request : Request)
  /-- The job of a request is started. -/
  | started (request : Request)
  /-- A worker is through with the job of a request. -/
  | finished (request : Request) (result : UpdateResult)
  /-- The result for a request comes into its document. -/
  | applied (request : Request) (result : UpdateResult)
  /-- The result for a request is dropped. -/
  | outdated (request : Request) (result : UpdateResult)
deriving DecidableEq

/-- What has happened, the oldest event first. -/
abbrev Log := List Event

/-- A step of a workshop, with the event that it leaves. -/
inductive Step : Workshop → Event → Workshop → Prop
  | opened {w : Workshop} {file directory : Path} {part : String} {arguments : List String}
      {q : Queue} : w.queue.openDocument file part arguments directory = .ok q →
      Step w (.opened file) { w with queue := q }
  | closed {w : Workshop} {file : Path} {q : Queue} : w.queue.closeDocument file = .ok q →
      Step w (.closed file w.queue.nextIssue) { w with queue := q }
  | updated {w : Workshop} {file : Path} {arguments : Option (List String)} {revision : Nat}
      {q : Queue} : w.queue.updateDocument file arguments = .ok (revision, q) →
      Step w (.updated file) { w with queue := q }
  | issued {w : Workshop} {request r : Request} {q : Queue} :
      w.queue.add request = .ok (r, q) → Step w (.issued r) { w with queue := q }
  | cancelled {w : Workshop} {job : Job} {rest : List Job} {q : Queue} :
      w.queue.pending = job :: rest →
      { w.queue with pending := rest }.start job = ({ cancelled := 1 }, q) →
      Step w (.cancelled job.request) { w with queue := q }
  | refused {w : Workshop} {job : Job} {rest : List Job} {q : Queue} :
      w.queue.pending = job :: rest →
      { w.queue with pending := rest }.start job = ({ failed := 1 }, q) →
      Step w (.refused job.request) { w with queue := q }
  | started {w : Workshop} {job : Job} {rest : List Job} {q : Queue} :
      w.queue.pending = job :: rest →
      { w.queue with pending := rest }.start job = ({ started := 1 }, q) →
      Step w (.started job.request) { w with queue := q }
  | finished {w : Workshop} {r : RunningJob} {result : UpdateResult} :
      r ∈ w.queue.running → r.number ∉ w.mailbox.map Prod.fst → r.run.Gives result →
      Step w (.finished r.job.request result)
        { w with mailbox := w.mailbox ++ [(r.number, result)] }
  | applied {w : Workshop} {number : Nat} {result : UpdateResult}
      {rest : List (Nat × UpdateResult)} {r : RunningJob} {q : Queue} :
      w.mailbox = (number, result) :: rest →
      w.queue.running.find? (fun other => other.number = number) = some r →
      w.queue.deliver number result = ({ applied := 1 }, q) →
      Step w (.applied r.job.request result) ⟨q, rest⟩
  | outdated {w : Workshop} {number : Nat} {result : UpdateResult}
      {rest : List (Nat × UpdateResult)} {r : RunningJob} {q : Queue} :
      w.mailbox = (number, result) :: rest →
      w.queue.running.find? (fun other => other.number = number) = some r →
      w.queue.deliver number result = ({ outdated := 1 }, q) →
      Step w (.outdated r.job.request result) ⟨q, rest⟩

/-- What can happen, from a queue that nothing has happened to. -/
inductive Run (q₀ : Queue) : Log → Workshop → Prop
  | start : Run q₀ [] ⟨q₀, []⟩
  | step {log : Log} {w w' : Workshop} {e : Event} :
      Run q₀ log w → Step w e w' → Run q₀ (log ++ [e]) w'

/-- One round of work: the queue takes all results and all pending jobs. -/
def process (w : Workshop) : Workshop := ⟨(w.queue.process w.mailbox).2, []⟩

/-- What waiting may lead to, behind a round of work: as long as jobs are running, workers get
    through with them, and the queue takes a result and does a round of work. -/
inductive Waits : Workshop → Workshop → Prop
  | idle {w : Workshop} : w.queue.running = [] → Waits w w
  | work {w w' w'' : Workshop} {request : Request} {result : UpdateResult} :
      Step w (.finished request result) w' → Waits w' w'' → Waits w w''
  | receive {w w'' : Workshop} {number : Nat} {result : UpdateResult}
      {rest : List (Nat × UpdateResult)} : w.mailbox = (number, result) :: rest →
      Waits (process ⟨(w.queue.deliver number result).2, rest⟩) w'' → Waits w w''

end Workshop

/-! ### What the calls do -/

namespace Queue

open Workshop

variable {q q' : Queue}

theorem openDocument_eq_ok {file directory : Path} {part : String} {arguments : List String}
    (h : q.openDocument file part arguments directory = .ok q') :
    ∃ documents, q.documents.opened (.new file part q.compiler arguments directory) =
      .ok documents ∧ q' = { q with documents } := by
  unfold openDocument at h
  cases ho : q.documents.opened (.new file part q.compiler arguments directory) with
  | error e => rw [ho] at h; cases h
  | ok documents => rw [ho] at h; cases h; exact ⟨documents, rfl, rfl⟩

theorem closeDocument_eq_ok {file : Path} (h : q.closeDocument file = .ok q') :
    ∃ document documents, q.documents.closed file = .ok (document, documents) ∧
      q' = { q with
        documents, issued := q.issued.retire file q.nextIssue, nextIssue := q.nextIssue + 1 } := by
  unfold closeDocument at h
  cases hc : q.documents.closed file with
  | error e => rw [hc] at h; cases h
  | ok closed => rw [hc] at h; cases h; exact ⟨closed.1, closed.2, rfl, rfl⟩

theorem updateDocument_eq_ok {file : Path} {arguments : Option (List String)} {revision : Nat}
    (h : q.updateDocument file arguments = .ok (revision, q')) :
    q' = { q with documents := q.documents.modify file (·.update arguments) } := by
  unfold updateDocument at h
  cases hg : q.documents.get file with
  | error e => rw [hg] at h; cases h
  | ok document => rw [hg] at h; cases h; rfl

theorem add_eq_ok {request r : Request} (h : q.add request = .ok (r, q')) :
    q.documents.contains r.file = true ∧ r.issuedAt = q.nextIssue ∧
      q' = { q with
        nextIssue := q.nextIssue + 1
        issued := q.issued.record r
        pending := q.pending ++ [⟨q.factory r, r, .pending⟩] } := by
  unfold add at h
  split at h
  · cases h
  · next hc => cases h; exact ⟨by simpa using hc, rfl, rfl⟩

/-! ### What the queue does with a job -/

variable {job : Job}

/-- Taking up a job, in one equation. -/
theorem start_eq (q : Queue) (job : Job) : q.start job =
    if (q.context job.request).isOutdated q.documents then ({ cancelled := 1 }, q)
    else match job.procedure.prepare (q.context job.request) q.documents with
      | .error _ => ({ failed := 1 }, { q with sink := q.sink.emit (refusal job.request) })
      | .ok run => ({ started := 1 }, { q with running :=
          q.running ++ [⟨job.request.issuedAt, { job with state := .running }, run⟩] }) := by
  simp only [start, Job.prepare]
  cases job.procedure.prepare (q.context job.request) q.documents <;> rfl

theorem start_cancelled (h : q.start job = ({ cancelled := 1 }, q')) :
    (q.context job.request).isOutdated q.documents = true ∧ q' = q := by
  rw [start_eq] at h
  split at h
  · next ho => cases h; exact ⟨ho, rfl⟩
  · split at h <;> cases h

theorem start_refused (h : q.start job = ({ failed := 1 }, q')) :
    (q.context job.request).isOutdated q.documents = false ∧
      (∃ e, job.procedure.prepare (q.context job.request) q.documents = .error e) ∧
      q' = { q with sink := q.sink.emit (refusal job.request) } := by
  rw [start_eq] at h
  split at h
  · cases h
  · next ho =>
    split at h <;> cases h
    exact ⟨by simpa using ho, ⟨_, by assumption⟩, rfl⟩

theorem start_started (h : q.start job = ({ started := 1 }, q')) :
    (q.context job.request).isOutdated q.documents = false ∧
      ∃ run, job.procedure.prepare (q.context job.request) q.documents = .ok run ∧
        q' = { q with running :=
          q.running ++ [⟨job.request.issuedAt, { job with state := .running }, run⟩] } := by
  rw [start_eq] at h
  split at h
  · cases h
  · next ho =>
    split at h <;> cases h
    exact ⟨by simpa using ho, _, by assumption, rfl⟩

/-- A job is cancelled, refused or started. -/
theorem start_report (q : Queue) (job : Job) :
    (q.start job).1 = { cancelled := 1 } ∨ (q.start job).1 = { failed := 1 } ∨
      (q.start job).1 = { started := 1 } := by
  rw [start_eq]
  split
  · exact .inl rfl
  · split
    · exact .inr (.inl rfl)
    · exact .inr (.inr rfl)

/-- Taking up a job does not look at the other pending jobs. -/
theorem start_pending (q : Queue) (pending : List Job) (job : Job) :
    { q with pending }.start job = ((q.start job).1, { (q.start job).2 with pending }) := by
  -- The context of a job is made of its request and the record only.
  by_cases ho : (q.context job.request).isOutdated q.documents = true
  · rw [start_eq q, if_pos ho, start_eq, if_pos (by exact ho)]
  · rw [start_eq q, if_neg ho, start_eq, if_neg (by exact ho)]
    simp only [context]
    cases job.procedure.prepare ⟨job.request, q.issued⟩ q.documents <;> rfl

variable {number : Nat} {result : UpdateResult} {r : RunningJob}

theorem deliver_of_find? (hr : q.running.find? (fun other => other.number = number) = some r) :
    q.deliver number result =
      match r.job.procedure.finalize r.job.request (q.context r.job.request) q.documents result with
      | (.applied, documents) => ({ applied := 1 }, { q with
          running := q.running.filter fun other => other.number ≠ number
          documents })
      | (.outdated, documents) => ({ outdated := 1 }, { q with
          running := q.running.filter fun other => other.number ≠ number
          documents }) := by
  cases hf : r.job.procedure.finalize r.job.request (q.context r.job.request) q.documents
    result with
  | mk outcome documents =>
    have : r.job.finalize (q.context r.job.request) q.documents result =
        (outcome, { r.job with state := .finalized }, documents) := by
      rw [Job.finalize, hf]
    simp only [deliver, hr, this]
    cases outcome <;> rfl

/-- A delivered job runs no longer, whatever becomes of its result. -/
theorem deliver_eq (result : UpdateResult)
    (hr : q.running.find? (fun other => other.number = number) = some r) :
    ∃ documents, (q.deliver number result).2 = { q with
        running := q.running.filter fun other => other.number ≠ number
        documents } ∧
      ((q.deliver number result).1 = { applied := 1 } ∨
        (q.deliver number result).1 = { outdated := 1 }) := by
  rw [deliver_of_find? hr]
  split
  · exact ⟨_, rfl, .inl rfl⟩
  · exact ⟨_, rfl, .inr rfl⟩

theorem eq_of_deliver {report : Report}
    (hr : q.running.find? (fun other => other.number = number) = some r)
    (h : q.deliver number result = (report, q')) : ∃ documents, q' = { q with
      running := q.running.filter fun other => other.number ≠ number
      documents } := by
  obtain ⟨documents, hd, -⟩ := deliver_eq result hr
  rw [h] at hd
  exact ⟨documents, hd⟩

end Queue

end PrecompiledHeaders
