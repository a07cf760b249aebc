import Mathlib.Data.List.Nodup
import PrecompiledHeaders.Proofs.Job.Calls
import PrecompiledHeaders.Proofs.Job.Schedule

/-!
# The books of a queue

What a client can count. Every request that was issued is pending, or it went one of three ways:
its job was started, cancelled or refused; and a job that was started is running, or its result
was applied or dropped. The *books* (`Books`) say so for the requests themselves, each of which
goes one way only, since no number is given out twice. Nothing is asked of jobs: they may be
refused as they like, and may do anything to the documents.

`Desk.requests_accounted` reads off the books what the reports of a queue add up to.
-/

namespace PrecompiledHeaders

/-! ### Sums of reports -/

namespace Report

variable (r s t : Report)

theorem add_assoc : (r.add s).add t = r.add (s.add t) := by
  simp [add, Nat.add_assoc]

theorem add_zero : r.add {} = r := rfl

theorem zero_add : add {} r = r := by
  simp [add]

end Report

namespace Workshop

/-- Which ways requests went. -/
structure Fates where
  /-- Those whose jobs were started. -/
  started : List Request := []
  /-- Those whose jobs were dropped before their start. -/
  cancelled : List Request := []
  /-- Those whose jobs could not be prepared. -/
  refused : List Request := []
  /-- Those whose results came into their documents. -/
  applied : List Request := []
  /-- Those whose results were dropped. -/
  outdated : List Request := []

/-- The numbers of requests that went each way. -/
def Fates.report (fates : Fates) : Report where
  started := fates.started.length
  applied := fates.applied.length
  outdated := fates.outdated.length
  cancelled := fates.cancelled.length
  failed := fates.refused.length

/-- Requests that were issued and diagnostics that were taken, and what became of the jobs. -/
structure Books (issued : List Request) (told : List Diagnostic) (fates : Fates) (q : Queue) :
    Prop where
  /-- A job is pending, or was taken up. -/
  taken : ∀ r, (q.pending.map Job.request).count r + fates.started.count r +
    fates.cancelled.count r + fates.refused.count r = issued.count r
  /-- A job that was started is running, or its result was taken. -/
  delivered : ∀ r, (q.running.map (·.job.request)).count r + fates.applied.count r +
    fates.outdated.count r = fates.started.count r
  /-- Running jobs have the numbers of their requests. -/
  number : ∀ r ∈ q.running, r.number = r.job.request.issuedAt
  /-- Numbers are given out in order. -/
  increasing : issued.Pairwise fun r s => r.issuedAt < s.issuedAt
  /-- The next number is greater than all of them. -/
  lt_nextIssue : ∀ r ∈ issued, r.issuedAt < q.nextIssue
  /-- The diagnostics are about the jobs that were refused. -/
  told : told ++ q.sink.pending = fates.refused.map Queue.refusal

namespace Books

variable {issued : List Request} {told : List Diagnostic} {fates : Fates} {q q' : Queue}

theorem of_isFresh (h : q.IsFresh) (hs : q.sink.pending = []) : Books [] [] {} q where
  taken := by simp [h.pending]
  delivered := by simp [h.running]
  number := by simp [h.running]
  increasing := .nil
  lt_nextIssue := by simp
  told := by simp [hs]

/-- What makes and takes no job leaves the books as they are. -/
theorem frame (h : Books issued told fates q) (hp : q'.pending = q.pending)
    (hr : q'.running = q.running) (hs : q'.sink = q.sink) (hn : q.nextIssue ≤ q'.nextIssue) :
    Books issued told fates q' where
  taken := by simpa only [hp] using h.taken
  delivered := by simpa only [hr] using h.delivered
  number := by simpa only [hr] using h.number
  increasing := h.increasing
  lt_nextIssue r hr := Nat.lt_of_lt_of_le (h.lt_nextIssue r hr) hn
  told := by rw [hs, h.told]

theorem nodup (h : Books issued told fates q) : (issued.map Request.issuedAt).Nodup := by
  rw [List.Nodup, List.pairwise_map]
  exact h.increasing.imp Nat.ne_of_lt

theorem perm_taken (h : Books issued told fates q) :
    (q.pending.map Job.request ++ fates.started ++ fates.cancelled ++ fates.refused).Perm issued :=
  List.perm_iff_count.2 fun r => by simpa only [List.count_append] using h.taken r

theorem perm_delivered (h : Books issued told fates q) :
    (q.running.map (·.job.request) ++ fates.applied ++ fates.outdated).Perm fates.started :=
  List.perm_iff_count.2 fun r => by simpa only [List.count_append] using h.delivered r

/-- Jobs that are running at one time have different numbers. -/
theorem nodup_running (h : Books issued told fates q) :
    (q.running.map RunningJob.number).Nodup := by
  have hsub : (q.running.map (·.job.request)).Subperm issued :=
    List.subperm_ext_iff.2 fun r _ => by
      have := h.taken r
      have := h.delivered r
      omega
  obtain ⟨l, hperm, hsub⟩ := hsub
  have hmap : q.running.map RunningJob.number =
      (q.running.map (·.job.request)).map Request.issuedAt := by
    rw [List.map_map]
    exact List.map_congr_left h.number
  rw [hmap]
  exact (hperm.map _).nodup_iff.1 (h.nodup.sublist (hsub.map _))

/-! ### What a queue does with jobs -/

/-- A request that is issued has a number of its own, and a pending job. -/
theorem add (h : Books issued told fates q) {request r : Request}
    (ha : q.add request = .ok (r, q')) : Books (issued ++ [r]) told fates q' := by
  obtain ⟨-, hr, rfl⟩ := Queue.add_eq_ok ha
  refine ⟨fun s => ?_, h.delivered, h.number, ?_, ?_, h.told⟩
  · have := h.taken s
    simp only [List.map_append, List.count_append, List.map_cons, List.map_nil]
    omega
  · refine List.pairwise_append.2 ⟨h.increasing, List.pairwise_singleton _ _, fun s hs t ht => ?_⟩
    rw [List.mem_singleton.1 ht, hr]
    exact h.lt_nextIssue s hs
  · intro s hs
    rcases List.mem_append.1 hs with hs | hs
    · exact Nat.lt_succ_of_lt (h.lt_nextIssue s hs)
    · rw [List.mem_singleton.1 hs, hr]
      exact Nat.lt_succ_self _

/-- Diagnostics that are taken are told. -/
theorem take (h : Books issued told fates q) :
    Books issued (told ++ q.sink.takeAll.1) fates { q with sink := q.sink.takeAll.2 } where
  taken := h.taken
  delivered := h.delivered
  number := h.number
  increasing := h.increasing
  lt_nextIssue := h.lt_nextIssue
  told := by simpa [DiagnosticSink.takeAll] using h.told

/-- A pending job that is taken up goes one of three ways. -/
theorem start {job : Job} {rest : List Job} {report : Report}
    (h : Books issued told fates { q with pending := job :: rest })
    (hs : q.start job = (report, q')) :
    ∃ fates' : Fates, fates'.report = fates.report.add report ∧
      Books issued told fates' { q' with pending := rest } := by
  have htaken := h.taken
  simp only [List.map_cons, List.count_cons] at htaken
  have hreport := Queue.start_report q job
  rw [hs] at hreport
  rcases hreport with rfl | rfl | rfl
  · obtain ⟨-, rfl⟩ := Queue.start_cancelled hs
    refine ⟨{ fates with cancelled := fates.cancelled ++ [job.request] }, ?_, fun r => ?_,
      h.delivered, h.number, h.increasing, h.lt_nextIssue, h.told⟩
    · simp [Fates.report, Report.add]
    · have := htaken r
      simp only [List.count_append, List.count_singleton]
      omega
  · obtain ⟨-, -, rfl⟩ := Queue.start_refused hs
    refine ⟨{ fates with refused := fates.refused ++ [job.request] }, ?_, fun r => ?_,
      h.delivered, h.number, h.increasing, h.lt_nextIssue, ?_⟩
    · simp [Fates.report, Report.add]
    · have := htaken r
      simp only [List.count_append, List.count_singleton]
      omega
    · simp [DiagnosticSink.emit, ← List.append_assoc, h.told]
  · obtain ⟨-, run, -, rfl⟩ := Queue.start_started hs
    refine ⟨{ fates with started := fates.started ++ [job.request] }, ?_, fun r => ?_, fun r => ?_,
      ?_, h.increasing, h.lt_nextIssue, h.told⟩
    · simp [Fates.report, Report.add]
    · have := htaken r
      simp only [List.count_append, List.count_singleton]
      omega
    · have := h.delivered r
      simp only [List.map_append, List.map_cons, List.map_nil, List.count_append,
        List.count_singleton] at this ⊢
      omega
    · simpa [or_imp, forall_and] using h.number

/-- A result that arrives goes one of two ways, if its job is running. -/
theorem deliver (h : Books issued told fates q) (number : Nat) (result : UpdateResult) :
    ∃ fates' : Fates, fates'.report = fates.report.add (q.deliver number result).1 ∧
      Books issued told fates' (q.deliver number result).2 := by
  cases hr : q.running.find? fun r => r.number = number with
  | none =>
    refine ⟨fates, ?_, ?_⟩
    · simp only [Queue.deliver, hr]
      rfl
    · simpa only [Queue.deliver, hr] using h
  | some r =>
    -- Numbers differ, so this job and no other is taken out of those that are running.
    have hnum : r.number = number := by simpa using List.find?_some hr
    have hperm := (perm_cons_filter h.nodup_running (List.mem_of_find?_eq_some hr)).map
      fun r : RunningJob => r.job.request
    have hdelivered := h.delivered
    simp only [hperm.count_eq, List.map_cons, List.count_cons, hnum] at hdelivered
    have hnumber : ∀ s ∈ q.running.filter fun other => other.number ≠ number,
        s.number = s.job.request.issuedAt := fun s hs => h.number s (List.mem_filter.1 hs).1
    obtain ⟨documents, heq, hs⟩ := Queue.deliver_eq result hr
    rw [heq]
    rcases hs with hs | hs
    · refine ⟨{ fates with applied := fates.applied ++ [r.job.request] }, ?_, h.taken, fun s => ?_,
        hnumber, h.increasing, h.lt_nextIssue, h.told⟩
      · simp [hs, Fates.report, Report.add]
      · have := hdelivered s
        simp only [List.count_append, List.count_singleton]
        omega
    · refine ⟨{ fates with outdated := fates.outdated ++ [r.job.request] }, ?_, h.taken, fun s => ?_,
        hnumber, h.increasing, h.lt_nextIssue, h.told⟩
      · simp [hs, Fates.report, Report.add]
      · have := hdelivered s
        simp only [List.count_append, List.count_singleton]
        omega

end Books

/-- The books say what some reports add up to. -/
def Balanced (issued : List Request) (told : List Diagnostic) (report : Report) (q : Queue) : Prop :=
  ∃ fates : Fates, Books issued told fates q ∧ fates.report = report

namespace Balanced

variable {issued : List Request} {told : List Diagnostic} {report : Report} {q q' : Queue}

theorem frame (h : Balanced issued told report q) (hp : q'.pending = q.pending)
    (hr : q'.running = q.running) (hs : q'.sink = q.sink) (hn : q.nextIssue ≤ q'.nextIssue) :
    Balanced issued told report q' := by
  obtain ⟨fates, hb, hf⟩ := h
  exact ⟨fates, hb.frame hp hr hs hn, hf⟩

theorem startAll {jobs : List Job} (h : Balanced issued told report { q with pending := jobs })
    (hp : q.pending = []) :
    Balanced issued told (report.add (q.startAll jobs).1) (q.startAll jobs).2 := by
  induction jobs generalizing q report with
  | nil =>
    have : { q with pending := [] } = q := by rw [← hp]
    exact this ▸ h
  | cons job rest ih =>
    obtain ⟨fates, hb, rfl⟩ := h
    obtain ⟨fates', hf, hb'⟩ := hb.start rfl
    have := ih ⟨fates', hb', hf⟩ ((pending_start q job).trans hp)
    rwa [Report.add_assoc] at this

theorem deliver (h : Balanced issued told report q) (number : Nat) (result : UpdateResult) :
    Balanced issued told (report.add (q.deliver number result).1) (q.deliver number result).2 := by
  obtain ⟨fates, hb, rfl⟩ := h
  obtain ⟨fates', hf, hb'⟩ := hb.deliver number result
  exact ⟨fates', hb', hf⟩

theorem deliverAll (h : Balanced issued told report q) (arrived : List (Nat × UpdateResult)) :
    Balanced issued told (report.add (q.deliverAll arrived).1) (q.deliverAll arrived).2 := by
  induction arrived generalizing q report with
  | nil => exact h
  | cons first rest ih =>
    have := ih (h.deliver first.1 first.2)
    rwa [Report.add_assoc] at this

/-- A round of work keeps the books. -/
theorem process (h : Balanced issued told report q) (arrived : List (Nat × UpdateResult)) :
    Balanced issued told (report.add (q.process arrived).1) (q.process arrived).2 := by
  have h₁ := h.deliverAll arrived
  have h₂ := startAll (q := { (q.deliverAll arrived).2 with pending := [] }) h₁ rfl
  rwa [Report.add_assoc] at h₂

end Balanced

/-! ### What a client can count -/

/-- The request that an answer tells about. -/
def Answer.issued? : Answer → Option Request
  | .reply (.request request) => some request
  | _ => none

/-- The diagnostics that an answer tells. -/
def Answer.told : Answer → List Diagnostic
  | .diagnostics ds => ds
  | _ => []

/-- What an answer counts. -/
def Answer.counts : Answer → Report
  | .report r => r
  | _ => {}

/-- The requests that were issued. -/
def issued (answers : List Answer) : List Request := answers.filterMap Answer.issued?

/-- The diagnostics that were taken. -/
def told (answers : List Answer) : List Diagnostic := answers.flatMap Answer.told

/-- The sum of all reports. -/
def reported (answers : List Answer) : Report :=
  answers.foldr (fun answer report => answer.counts.add report) {}

/-- What a client has heard is right, together with what was done since it waits. -/
def Desk.IsBalanced (d : Desk) (answers : List Answer) : Prop :=
  Balanced (issued answers) (told answers) ((reported answers).add (d.waiting.getD {})) d.queue

namespace Desk

variable {d : Desk} {answers : List Answer} {answer : Answer}

theorem reported_concat (answers : List Answer) (answer : Answer) :
    reported (answers ++ [answer]) = (reported answers).add answer.counts := by
  induction answers with
  | nil => exact (Report.zero_add answer.counts).symm
  | cons first rest ih =>
    have := congrArg first.counts.add ih
    rwa [← Report.add_assoc] at this

theorem isBalanced_concat : d.IsBalanced (answers ++ [answer]) ↔
    Balanced (issued answers ++ answer.issued?.toList) (told answers ++ answer.told)
      ((reported answers).add (answer.counts.add (d.waiting.getD {}))) d.queue := by
  have hissued : issued (answers ++ [answer]) = issued answers ++ answer.issued?.toList := by
    cases ha : answer.issued? <;> simp [issued, ha]
  have htold : told (answers ++ [answer]) = told answers ++ answer.told := by simp [told]
  rw [IsBalanced, hissued, htold, reported_concat, Report.add_assoc]

/-- Some answers say nothing that is counted. -/
theorem IsBalanced.concat (h : d.IsBalanced answers) (hi : answer.issued? = none)
    (ht : answer.told = []) (hc : answer.counts = {}) : d.IsBalanced (answers ++ [answer]) := by
  rw [isBalanced_concat, hi, ht, hc, Report.zero_add]
  simpa [IsBalanced] using h

theorem IsBalanced.frame {d' : Desk} (h : d.IsBalanced answers) (hw : d'.waiting = d.waiting)
    (hp : d'.queue.pending = d.queue.pending) (hr : d'.queue.running = d.queue.running)
    (hs : d'.queue.sink = d.queue.sink) (hn : d.queue.nextIssue ≤ d'.queue.nextIssue) :
    d'.IsBalanced answers := by
  rw [IsBalanced, hw]
  exact Balanced.frame h hp hr hs hn

/-- Behind a round of work the client has its report, or goes on waiting. -/
theorem isBalanced_await {queue : Queue} {report : Report}
    (h : Balanced (issued answers) (told answers) ((reported answers).add report) queue) :
    (await queue report).2.IsBalanced (answers ++ (await queue report).1.toList) := by
  unfold await
  split
  · refine isBalanced_concat.2 ?_
    simpa [Answer.issued?, Answer.told, Answer.counts, Report.add_zero] using h
  · rwa [Option.toList_none, List.append_nil]

theorem IsBalanced.call (h : d.IsBalanced answers) (call : Queue.Call) :
    (d.act (.call call)).2.IsBalanced (answers ++ (d.act (.call call)).1.toList) := by
  simp only [Desk.act, Queue.Call.inPlace_eq]
  cases hc : call.apply d.queue with
  | error e => exact h.concat rfl rfl rfl
  | ok replied =>
    obtain ⟨reply, queue⟩ := replied
    change IsBalanced { d with queue } (answers ++ [.reply reply])
    rcases Queue.Call.apply_cases hc with
      ⟨request, r, -, rfl, ha⟩ | ⟨hreply, documents, recorded, next, hn, rfl⟩
    · obtain ⟨fates, hb, hf⟩ := h
      refine isBalanced_concat.2 ⟨fates, ?_, ?_⟩
      · simpa [Answer.issued?, Answer.told] using hb.add ha
      · simpa [Answer.counts, Report.zero_add] using hf
    · refine IsBalanced.concat (h.frame rfl rfl rfl rfl hn) ?_ rfl rfl
      cases reply with
      | request r => exact absurd rfl (hreply r)
      | _ => rfl

theorem IsBalanced.act (h : d.IsBalanced answers) (hw : d.waiting = none) (act : Act) :
    (d.act act).2.IsBalanced (answers ++ (d.act act).1.toList) := by
  have hround := Balanced.process h d.mailbox
  rw [hw, Option.getD_none, Report.add_zero] at hround
  cases act with
  | call call => exact h.call call
  | takeDiagnostics =>
    obtain ⟨fates, hb, hf⟩ := h
    change IsBalanced ⟨⟨{ d.queue with sink := d.queue.sink.takeAll.2 }, d.mailbox⟩, d.waiting⟩
      (answers ++ [.diagnostics d.queue.sink.takeAll.1])
    refine isBalanced_concat.2 ⟨fates, ?_, ?_⟩
    · simpa [Answer.issued?, Answer.told] using hb.take
    · simpa [Answer.counts, Report.zero_add] using hf
  | process =>
    change IsBalanced ⟨⟨(d.queue.process d.mailbox).2, []⟩, d.waiting⟩
      (answers ++ [.report (d.queue.process d.mailbox).1])
    rw [isBalanced_concat, hw]
    simpa [Answer.issued?, Answer.told, Answer.counts, Report.add_zero] using hround
  | wait => exact isBalanced_await hround

/-- Whatever happens next, the books are kept. -/
theorem IsBalanced.make (h : d.IsBalanced answers) (move : Move) :
    (d.make move).2.IsBalanced (answers ++ (d.make move).1.toList) := by
  have hsilent : d.IsBalanced (answers ++ []) := by rwa [List.append_nil]
  cases move with
  | act act =>
    simp only [Desk.make]
    cases hw : d.waiting with
    | none => exact h.act hw act
    | some report => exact hsilent
  | setFactory factory =>
    simp only [Desk.make]
    split
    · exact hsilent.frame rfl rfl rfl rfl (Nat.le_refl _)
    · exact hsilent
  | finish number result =>
    simp only [Desk.make]
    split
    · exact hsilent.frame rfl rfl rfl rfl (Nat.le_refl _)
    · exact hsilent
  | receive =>
    simp only [Desk.make]
    split
    · next report number result rest hw hm =>
      have h₁ := (Balanced.deliver h number result).process rest
      rw [hw, Option.getD_some] at h₁
      refine isBalanced_await ?_
      simpa only [Report.add_assoc] using h₁
    · exact hsilent

theorem IsBalanced.after (h : d.IsBalanced answers) (moves : List Move) :
    (d.after moves).2.IsBalanced (answers ++ (d.after moves).1) := by
  induction moves generalizing d answers with
  | nil => rwa [Desk.after, List.append_nil]
  | cons move moves ih =>
    have := ih (h.make move)
    rwa [List.append_assoc] at this

/-- Every request that a queue issues is accounted for once, whatever its client, its workers and
    its jobs do. What is counted is what the reports add up to, with what was done since the client
    waits, if it does. A call that fails leaves the queue as it was. -/
theorem requests_accounted (compiler : String) (moves : List Move) :
    let (answers, d) := (new compiler).after moves
    let report := (reported answers).add (d.waiting.getD {})
    (issued answers).length =
        report.started + report.cancelled + report.failed + d.queue.pending.length ∧
      report.started = report.applied + report.outdated + d.queue.running.length ∧
      (told answers ++ d.queue.sink.pending).map Diagnostic.code =
        List.replicate report.failed .malformedJob ∧
      (∃ fates, Books (issued answers) (told answers) fates d.queue ∧ fates.report = report) ∧
      ∀ (call : Queue.Call) (e : JobError) (q : Queue),
        call.inPlace.run d.queue = .error e q → q = d.queue := by
  have h₀ : (new compiler).IsBalanced [] :=
    ⟨{}, .of_isFresh (Queue.isFresh_new compiler) rfl, rfl⟩
  obtain ⟨fates, hb, hf⟩ : (((new compiler).after moves).2).IsBalanced _ := h₀.after moves
  rw [List.nil_append] at hb hf
  refine ⟨?_, ?_, ?_, ⟨fates, hb, hf⟩, fun call e q => Queue.Call.eq_of_inPlace_error⟩
  · rw [← hf, ← hb.perm_taken.length_eq]
    simp [Fates.report]
    omega
  · rw [← hf]
    change fates.started.length = _
    rw [← hb.perm_delivered.length_eq]
    simp [Fates.report]
    omega
  · rw [← hf, hb.told]
    simp [Fates.report, Function.comp_def, List.map_const', Queue.refusal, Diagnostic.error]

end Desk

end Workshop

end PrecompiledHeaders
