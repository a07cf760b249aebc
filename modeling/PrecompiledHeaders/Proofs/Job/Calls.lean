import PrecompiledHeaders.Proofs.Job.Workshop

/-!
# Queues and their clients

What a client of a queue does, and what it learns. The calls that may fail are given a second time
as work on a queue *in place* (`Queue.InPlace`): one change comes after the other, and what was
changed in front of an error stays changed. `Queue.Call.inPlace_eq` says that there is no such
change: a call that fails leaves the queue as it was, and else does what the function of the queue
does.

A `Desk` is a workshop with its client, who may be waiting until nothing is left to do. What
happens there is a list of moves, made by the client, by workers, or by the queue on behalf of a
client who waits (`Desk.make`, `Desk.after`). Who waits does nothing else, and has the report of
the wait at its end.
-/

namespace PrecompiledHeaders

namespace Queue

/-! ### Calls that may fail -/

/-- Work on a queue that changes it bit by bit, and that may break off. -/
abbrev InPlace := EStateM JobError Queue

/-- A call that may fail. -/
inductive Call
  /-- A document is opened. -/
  | openDocument (file : Path) (part : String) (arguments : List String) (directory : Path)
  /-- A document is closed. -/
  | closeDocument (file : Path)
  /-- A document is changed. -/
  | updateDocument (file : Path) (arguments : Option (List String))
  /-- A request is issued. -/
  | add (request : Request)
deriving DecidableEq

/-- What a call gives if it does not fail. -/
inductive Reply
  /-- Nothing. -/
  | done
  /-- The new revision of a document. -/
  | revision (revision : Nat)
  /-- A request, with its number. -/
  | request (request : Request)
deriving DecidableEq

namespace Call

/-- A call, as one function of the queue. -/
def apply (q : Queue) : Call → Except JobError (Reply × Queue)
  | .openDocument file part arguments directory => do
    let q ← q.openDocument file part arguments directory
    return (.done, q)
  | .closeDocument file => do
    let q ← q.closeDocument file
    return (.done, q)
  | .updateDocument file arguments => do
    let (revision, q) ← q.updateDocument file arguments
    return (.revision revision, q)
  | .add request => do
    let (request, q) ← q.add request
    return (.request request, q)

/-- A call, as the changes that it makes one after the other. -/
def inPlace : Call → InPlace Reply
  | .openDocument file part arguments directory => do
    let q ← get
    let documents ← ofExcept (q.documents.opened (.new file part q.compiler arguments directory))
    modify fun q => { q with documents }
    return .done
  | .closeDocument file => do
    let (_, documents) ← ofExcept ((← get).documents.closed file)
    modify fun q => { q with documents }
    modify fun q => { q with issued := q.issued.retire file q.nextIssue }
    modify fun q => { q with nextIssue := q.nextIssue + 1 }
    return .done
  | .updateDocument file arguments => do
    let document ← ofExcept ((← get).documents.get file)
    modify fun q => { q with documents := q.documents.modify file (·.update arguments) }
    return .revision (document.update arguments).revision
  | .add request => do
    if !(← get).documents.contains request.file then throw (.notOpen request.file)
    let request := { request with issuedAt := (← get).nextIssue }
    modify fun q => { q with nextIssue := q.nextIssue + 1 }
    modify fun q => { q with issued := q.issued.record request }
    modify fun q => { q with pending := q.pending ++ [⟨q.factory request, request, .pending⟩] }
    return .request request

/-- Calls in place do what the functions of the queue do, and do nothing if these fail. -/
theorem inPlace_eq (call : Call) (q : Queue) : call.inPlace.run q =
    match call.apply q with
    | .ok (reply, q') => .ok reply q'
    | .error e => .error e q := by
  cases call with
  | openDocument file part arguments directory =>
    simp only [inPlace, apply, Queue.openDocument, EStateM.run_bind, EStateM.run_get]
    cases q.documents.opened (.new file part q.compiler arguments directory) <;> rfl
  | closeDocument file =>
    simp only [inPlace, apply, Queue.closeDocument, EStateM.run_bind, EStateM.run_get]
    cases q.documents.closed file <;> rfl
  | updateDocument file arguments =>
    simp only [inPlace, apply, Queue.updateDocument, EStateM.run_bind, EStateM.run_get]
    cases q.documents.get file <;> rfl
  | add request =>
    simp only [inPlace, apply, Queue.add, EStateM.run_bind, EStateM.run_get]
    cases q.documents.contains request.file <;> rfl

/-- A call issues a request, or is about documents only and makes no job. -/
theorem apply_cases {call : Call} {q q' : Queue} {reply : Reply}
    (h : call.apply q = .ok (reply, q')) :
    (∃ request r, call = .add request ∧ reply = .request r ∧ q.add request = .ok (r, q')) ∨
      (∀ r, reply ≠ .request r) ∧ ∃ documents issued nextIssue, q.nextIssue ≤ nextIssue ∧
        q' = { q with documents, issued, nextIssue } := by
  cases call with
  | openDocument file part arguments directory =>
    cases ho : q.openDocument file part arguments directory with
    | error e => rw [apply, ho] at h; cases h
    | ok q₁ =>
      rw [apply, ho] at h
      cases h
      obtain ⟨documents, -, rfl⟩ := openDocument_eq_ok ho
      exact .inr ⟨nofun, documents, _, _, Nat.le_refl _, rfl⟩
  | closeDocument file =>
    cases hc : q.closeDocument file with
    | error e => rw [apply, hc] at h; cases h
    | ok q₁ =>
      rw [apply, hc] at h
      cases h
      obtain ⟨document, documents, -, rfl⟩ := closeDocument_eq_ok hc
      exact .inr ⟨nofun, documents, _, _, Nat.le_succ _, rfl⟩
  | updateDocument file arguments =>
    cases hu : q.updateDocument file arguments with
    | error e => rw [apply, hu] at h; cases h
    | ok updated =>
      rw [apply, hu] at h
      cases h
      exact .inr ⟨nofun, _, _, _, Nat.le_refl _, updateDocument_eq_ok hu⟩
  | add request =>
    cases ha : q.add request with
    | error e => rw [apply, ha] at h; cases h
    | ok issued =>
      rw [apply, ha] at h
      cases h
      exact .inl ⟨request, _, rfl, rfl, ha⟩

/-- A call that fails leaves the queue as it was. -/
theorem eq_of_inPlace_error {call : Call} {q q' : Queue} {e : JobError}
    (h : call.inPlace.run q = .error e q') : q' = q := by
  rw [inPlace_eq] at h
  split at h <;> cases h
  rfl

end Call

end Queue

/-! ### Clients -/

namespace Workshop

/-- What a client does. -/
inductive Act
  /-- It calls the queue. -/
  | call (call : Queue.Call)
  /-- It takes the diagnostics about jobs. -/
  | takeDiagnostics
  /-- It lets the queue do a round of work. -/
  | process
  /-- It waits until nothing is left to do. -/
  | wait

/-- What a client learns. -/
inductive Answer
  /-- A call gives something. -/
  | reply (reply : Queue.Reply)
  /-- A call fails. -/
  | failed (error : JobError)
  /-- Diagnostics were taken. -/
  | diagnostics (diagnostics : List Diagnostic)
  /-- A round of work, or a wait, is over. -/
  | report (report : Report)
deriving DecidableEq

/-- A workshop with its client. -/
structure Desk extends Workshop where
  /-- What has happened since the client waits, if it does. -/
  waiting : Option Report

namespace Desk

/-- A new queue, and a client who has done nothing. -/
def new (compiler : String) : Desk := ⟨⟨.new compiler, []⟩, none⟩

/-- Whether it is time to stop waiting: the client has its report as soon as no job is running. -/
def await (queue : Queue) (report : Report) : Option Answer × Desk :=
  match queue.running with
  | [] => (some (.report report), ⟨⟨queue, []⟩, none⟩)
  | _ :: _ => (none, ⟨⟨queue, []⟩, some report⟩)

/-- What becomes of something that a client does. -/
def act (d : Desk) : Act → Option Answer × Desk
  | .call call =>
    match call.inPlace.run d.queue with
    | .ok reply queue => (some (.reply reply), { d with queue })
    | .error e queue => (some (.failed e), { d with queue })
  | .takeDiagnostics =>
    let (diagnostics, sink) := d.queue.sink.takeAll
    (some (.diagnostics diagnostics), { d with queue := { d.queue with sink } })
  | .process =>
    let (report, queue) := d.queue.process d.mailbox
    (some (.report report), { d with queue, mailbox := [] })
  | .wait =>
    let (report, queue) := d.queue.process d.mailbox
    await queue report

/-- What may happen next. -/
inductive Move
  /-- The client does something. -/
  | act (act : Act)
  /-- The client gives the queue another factory. -/
  | setFactory (factory : Request → Procedure)
  /-- A worker is through with the job of a number. -/
  | finish (number : Nat) (result : UpdateResult)
  /-- The queue takes the oldest result, and does a round of work, for a client who waits. -/
  | receive

/-- Lets something happen. A client who waits does nothing, and a worker is through with a job
    that is running, and only once. -/
def make (d : Desk) : Move → Option Answer × Desk
  | .act act =>
    match d.waiting with
    | none => d.act act
    | some _ => (none, d)
  | .setFactory factory =>
    match d.waiting with
    | none => (none, { d with queue := { d.queue with factory } })
    | some _ => (none, d)
  | .finish number result =>
    if number ∈ d.queue.running.map RunningJob.number ∧ number ∉ d.mailbox.map Prod.fst then
      (none, { d with mailbox := d.mailbox ++ [(number, result)] })
    else (none, d)
  | .receive =>
    match d.waiting, d.mailbox with
    | some report, (number, result) :: rest =>
      let (first, queue) := d.queue.deliver number result
      let (second, queue) := queue.process rest
      await queue (report.add (first.add second))
    | _, _ => (none, d)

/-- Lets things happen one after the other; gives what the client learns. -/
def after (d : Desk) : List Move → List Answer × Desk
  | [] => ([], d)
  | move :: moves =>
    let (answer, d) := d.make move
    let (answers, d) := d.after moves
    (answer.toList ++ answers, d)

end Desk

end Workshop

end PrecompiledHeaders
