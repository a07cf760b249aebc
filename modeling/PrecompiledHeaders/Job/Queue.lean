import PrecompiledHeaders.Diagnostic.Sink
import PrecompiledHeaders.Job.Basic
import PrecompiledHeaders.Job.Reparse

/-!
# Job queues

A queue owns the open documents, numbers the requests for jobs and takes the jobs through their
steps. Running is not its business: it hands out computations (`Queue.startPending`) and takes
results back in any order (`Queue.deliver`). One round of work is `Queue.process`: all results that
have arrived are taken, then every pending job is started that is not outdated.

`Queue.drain` plays the worker: it runs what was started, in the order of the start, and delivers
each result.
-/

namespace PrecompiledHeaders

/-- How many jobs went which way. -/
structure Report where
  /-- Jobs that were started. -/
  started : Nat := 0
  /-- Results that came into their document. -/
  applied : Nat := 0
  /-- Results that were dropped. -/
  outdated : Nat := 0
  /-- Jobs that were dropped before their start. -/
  cancelled : Nat := 0
  /-- Jobs that could not be prepared. -/
  failed : Nat := 0
deriving DecidableEq, Repr, Inhabited

/-- The sum of two reports. -/
def Report.add (r s : Report) : Report :=
  ⟨r.started + s.started, r.applied + s.applied, r.outdated + s.outdated,
    r.cancelled + s.cancelled, r.failed + s.failed⟩

/-- A job that has been started. -/
structure RunningJob where
  /-- The number under which its result will come. -/
  number : Nat
  /-- The job. -/
  job : Job
  /-- What is computed. -/
  run : PreparedRun

/-- The open documents, and the jobs on them. -/
structure Queue where
  /-- The compiler of documents. -/
  compiler : String
  /-- The procedure of the job for a request. -/
  factory : Request → Procedure
  /-- The open documents. -/
  documents : Documents
  /-- The requests that have been issued. -/
  issued : IssuedRequests
  /-- The number of the next request. -/
  nextIssue : Nat
  /-- The jobs that are still to be started, the oldest first. -/
  pending : List Job
  /-- The jobs that have been started, in the order of the start. -/
  running : List RunningJob
  /-- What went wrong with jobs. -/
  sink : DiagnosticSink

namespace Queue

/-- A queue without documents. -/
def new (compiler : String) : Queue where
  compiler := compiler
  factory request := .ofKind request.kind
  documents := .empty
  issued := .empty
  nextIssue := 1
  pending := []
  running := []
  sink := .empty

/-! ### Documents and requests -/

/-- Opens a document. -/
def openDocument (q : Queue) (file : Path) (part : String) (arguments : List String)
    (directory : Path) : Except JobError Queue := do
  let documents ← q.documents.opened (.new file part q.compiler arguments directory)
  return { q with documents }

/-- Closes a document. All requests for it so far are superseded. -/
def closeDocument (q : Queue) (file : Path) : Except JobError Queue := do
  let (_, documents) ← q.documents.closed file
  return { q with
    documents, issued := q.issued.retire file q.nextIssue, nextIssue := q.nextIssue + 1 }

/-- Changes a document; gives its new revision. -/
def updateDocument (q : Queue) (file : Path) (arguments : Option (List String)) :
    Except JobError (Nat × Queue) := do
  let document ← q.documents.get file
  let documents := q.documents.modify file fun document => document.update arguments
  return ((document.update arguments).revision, { q with documents })

/-- Issues a request and makes its job; gives the request with its number. -/
def add (q : Queue) (request : Request) : Except JobError (Request × Queue) :=
  if !q.documents.contains request.file then .error (.notOpen request.file)
  else
    let request := { request with issuedAt := q.nextIssue }
    .ok (request, { q with
      nextIssue := q.nextIssue + 1
      issued := q.issued.record request
      pending := q.pending ++ [⟨q.factory request, request, .pending⟩] })

/-! ### Jobs -/

/-- What a request is judged by. -/
def context (q : Queue) (request : Request) : Context := ⟨request, q.issued⟩

/-- The diagnostic about a job that could not be prepared. -/
def refusal (request : Request) : Diagnostic :=
  .error .malformedJob s!"cannot run {request.kind.label} job" request.file

/-- Takes up a job that was pending: drops it, refuses it or starts it. -/
def start (q : Queue) (job : Job) : Report × Queue :=
  let context := q.context job.request
  if context.isOutdated q.documents then ({ cancelled := 1 }, q)
  else match job.prepare context q.documents with
    | (.error _, _) => ({ failed := 1 }, { q with sink := q.sink.emit (refusal job.request) })
    | (.ok run, job) =>
      ({ started := 1 },
        { q with running := q.running ++ [⟨job.request.issuedAt, job.markRunning, run⟩] })

/-- Takes up jobs in order. -/
def startAll (q : Queue) : List Job → Report × Queue
  | [] => ({}, q)
  | job :: rest =>
    let (first, q) := q.start job
    let (others, q) := q.startAll rest
    (first.add others, q)

/-- Takes up all pending jobs. -/
def startPending (q : Queue) : Report × Queue :=
  { q with pending := [] }.startAll q.pending

/-- Takes the result of the running job with a number. -/
def deliver (q : Queue) (number : Nat) (result : UpdateResult) : Report × Queue :=
  match q.running.find? fun r => r.number = number with
  | none => ({}, q)
  | some r =>
    let running := q.running.filter fun other => other.number ≠ number
    match r.job.finalize (q.context r.job.request) q.documents result with
    | (.applied, _, documents) => ({ applied := 1 }, { q with running, documents })
    | (.outdated, _, documents) => ({ outdated := 1 }, { q with running, documents })

/-- Takes results in the order in which they have arrived. -/
def deliverAll (q : Queue) : List (Nat × UpdateResult) → Report × Queue
  | [] => ({}, q)
  | (number, result) :: rest =>
    let (first, q) := q.deliver number result
    let (others, q) := q.deliverAll rest
    (first.add others, q)

/-- One round of work: takes the results that have arrived, and starts pending jobs. -/
def process (q : Queue) (arrived : List (Nat × UpdateResult)) : Report × Queue :=
  let (first, q) := q.deliverAll arrived
  let (second, q) := q.startPending
  (first.add second, q)

/-! ### Working off a queue -/

/-- Runs jobs in order, which gives their results. -/
def runAll (frontend : Frontend) (tree : FileTree) (table : PathTable) :
    List RunningJob → List (Nat × UpdateResult) × FileTree × PathTable
  | [] => ([], tree, table)
  | r :: rest =>
    let (result, tree, table) := r.run.input.reparse frontend tree table
    let (others, tree, table) := runAll frontend tree table rest
    ((r.number, result) :: others, tree, table)

/-- Works the queue off: starts what is pending, runs what has been started, takes the results,
    and starts what may have become pending. -/
def drain (q : Queue) (frontend : Frontend) (tree : FileTree) (table : PathTable) :
    Report × Queue × FileTree × PathTable :=
  let (first, q) := q.process []
  let (results, tree, table) := runAll frontend tree table q.running
  let (second, q) := q.process results
  (first.add second, q, tree, table)

end Queue

end PrecompiledHeaders
