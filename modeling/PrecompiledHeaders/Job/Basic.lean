import PrecompiledHeaders.Job.Document

/-!
# Jobs

A job serves a request in three steps: it is *prepared*, which picks out what it needs of the
documents; it is run, away from the documents; and it is *finalized*, which puts the result into
its document, unless the job is outdated by then. What a job does in the first and the last step
is its procedure; the two procedures there are (`Procedure.reparse`, `Procedure.supportive`)
differ in the unit that they write.
-/

namespace PrecompiledHeaders

/-- How far a job has come. -/
inductive JobState
  /-- It has been made. -/
  | pending
  /-- It has been prepared. -/
  | prepared
  /-- It is being run. -/
  | running
  /-- It is through. -/
  | finalized
deriving DecidableEq, Repr, Inhabited

/-- What has become of the result of a job. -/
inductive JobOutcome
  /-- The document holds it now. -/
  | applied
  /-- It was dropped. -/
  | outdated
deriving DecidableEq, Repr

/-- What a job is judged by: a request, and the record of issued requests. -/
structure Context where
  /-- The request. -/
  request : Request
  /-- The requests that have been issued. -/
  issued : IssuedRequests
deriving DecidableEq, Repr

namespace Context

/-- Whether the document is closed, or a newer request is about the same unit. -/
def isOutdated (context : Context) (documents : Documents) : Bool :=
  !documents.contains context.request.file || context.issued.isSuperseded context.request

/-- The document of the request. -/
def document (context : Context) (documents : Documents) : Except JobError Document :=
  match documents.get? context.request.file with
  | some document => .ok document
  | none => .error (.malformed (.notOpen context.request.file))

end Context

/-- A computation that is ready to run. -/
structure PreparedRun where
  /-- The file of the document. -/
  file : Path
  /-- The unit that is reparsed. -/
  unit : UnitKind
  /-- What the reparse works on. -/
  input : UpdateInput
deriving DecidableEq, Repr, Inhabited

/-- What jobs of a kind do before and after they are run. -/
structure Procedure where
  /-- Picks out what the run needs. -/
  prepare : Context → Documents → Except JobError PreparedRun
  /-- Does something with the result; the first argument is the job's own request. -/
  finalize : Request → Context → Documents → UpdateResult → JobOutcome × Documents

namespace Procedure

/-- A procedure for requests of one kind that reparses a unit of the document and keeps the
    result for that unit. -/
def reparsing (expected : RequestKind) (unitOf : Request → UnitKind) : Procedure where
  prepare context documents :=
    if context.request.kind ≠ expected then
      .error (.malformed (.wrongKind expected context.request.kind))
    else do
      let document ← context.document documents
      return ⟨document.file, unitOf context.request, document.updateInput⟩
  finalize own context documents result :=
    if context.isOutdated documents ∨ !documents.contains own.file then (.outdated, documents)
    else
      (.applied, documents.modify own.file fun document =>
        document.incorporate (unitOf own) result)

/-- Reparses the unit that the request is about. -/
def reparse : Procedure := reparsing .reparse Request.unit

/-- Reparses the supportive unit, whatever the request is about. -/
def supportive : Procedure := reparsing .supportive fun _ => .supportive

/-- The procedure for a kind of request. -/
def ofKind : RequestKind → Procedure
  | .reparse => reparse
  | .supportive => supportive

end Procedure

/-- A job for a request. -/
structure Job where
  /-- What the job does. -/
  procedure : Procedure
  /-- The request. -/
  request : Request
  /-- How far the job has come. -/
  state : JobState := .pending

namespace Job

/-- Prepares the job. If that fails, the job stays as it is. -/
def prepare (job : Job) (context : Context) (documents : Documents) :
    Except JobError PreparedRun × Job :=
  match job.procedure.prepare context documents with
  | .error e => (.error e, job)
  | .ok run => (.ok run, { job with state := .prepared })

/-- Notes that the job is being run. -/
def markRunning (job : Job) : Job := { job with state := .running }

/-- Finalizes the job with its result. -/
def finalize (job : Job) (context : Context) (documents : Documents) (result : UpdateResult) :
    JobOutcome × Job × Documents :=
  let (outcome, documents) := job.procedure.finalize job.request context documents result
  (outcome, { job with state := .finalized }, documents)

end Job

end PrecompiledHeaders
