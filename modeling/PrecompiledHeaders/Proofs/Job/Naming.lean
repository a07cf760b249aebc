import PrecompiledHeaders.Proofs.Generation.Likeness
import PrecompiledHeaders.Proofs.Job.Calls
import PrecompiledHeaders.Proofs.Job.Freshness

/-!
# Ids are names

Ids of headers stand for paths, and nothing but the table tells which. A queue never looks at
them: if the results that it takes are like those of another queue, up to some relation between
their lists of ids, all that it does is like what the other one does (`Queue.Like`). A reparse
gives ids that stand for the same paths, whatever its table has seen before
(`UpdateInput.reparse_like`). So two queues that are used in the same way, each with a table of its
own, show the same (`Site.after_like`).

With what holds of passes (`Generator.Shares.generate`), `ids_are_names` says that of the whole:
only the numbers depend on the past of a table.
-/

namespace PrecompiledHeaders

/-! ### What holds ids -/

variable {R S : List PathId → List PathId → Prop}

/-- Whether two results are the same, but for ids that are related. -/
structure UpdateResult.Like (R : List PathId → List PathId → Prop) (r r' : UpdateResult) : Prop where
  revision : r'.revision = r.revision
  diagnostics : r'.diagnostics = r.diagnostics
  includes : R r.includes r'.includes

/-- Whether two documents are the same, but for ids that are related. -/
structure Document.Like (R : List PathId → List PathId → Prop) (d d' : Document) : Prop where
  eq : d' = { d with primary := d'.primary, supportive := d'.supportive }
  primary : Option.Rel (UpdateResult.Like R) d.primary d'.primary
  supportive : Option.Rel (UpdateResult.Like R) d.supportive d'.supportive

/-- Whether the same documents are open. -/
def Documents.Like (R : List PathId → List PathId → Prop) (ds ds' : Documents) : Prop :=
  List.Forall₂ (Document.Like R) ds.entries ds'.entries

theorem UpdateResult.Like.mono (hRS : ∀ ids ids', R ids ids' → S ids ids') {r r' : UpdateResult}
    (h : r.Like R r') : r.Like S r' := { h with includes := hRS _ _ h.includes }

namespace Document.Like

variable {d d' : Document}

theorem mono (hRS : ∀ ids ids', R ids ids' → S ids ids') (h : d.Like R d') : d.Like S d' :=
  ⟨h.eq, h.primary.imp fun _ _ => .mono hRS, h.supportive.imp fun _ _ => .mono hRS⟩

theorem file_eq (h : d.Like R d') : d'.file = d.file := by
  rw [h.eq]

theorem updateInput_eq (h : d.Like R d') : d'.updateInput = d.updateInput := by
  rw [h.eq]
  rfl

theorem update (h : d.Like R d') (arguments : Option (List String)) :
    (d.update arguments).Like R (d'.update arguments) := by
  refine ⟨?_, h.primary, h.supportive⟩
  rw [h.eq]
  rfl

theorem incorporate (h : d.Like R d') (unit : UnitKind) {r r' : UpdateResult} (hr : r.Like R r') :
    (d.incorporate unit r).Like R (d'.incorporate unit r') := by
  cases unit with
  | primary =>
    refine ⟨?_, .some hr, h.supportive⟩
    rw [h.eq]
    simp [Document.incorporate, hr.revision]
  | supportive =>
    refine ⟨?_, h.primary, .some hr⟩
    rw [h.eq]
    rfl

end Document.Like

namespace Documents.Like

variable {ds ds' : Documents}

theorem mono (hRS : ∀ ids ids', R ids ids' → S ids ids') (h : ds.Like R ds') : ds.Like S ds' :=
  List.Forall₂.imp (fun _ _ => .mono hRS) h

theorem get? (h : ds.Like R ds') (file : Path) :
    Option.Rel (Document.Like R) (ds.get? file) (ds'.get? file) := by
  unfold Documents.get?
  unfold Documents.Like at h
  generalize ds.entries = entries, ds'.entries = entries' at h ⊢
  induction h with
  | nil => exact .none
  | @cons d d' rest rest' hd _ ih =>
    simp only [List.find?_cons, hd.file_eq]
    split
    · exact .some hd
    · exact ih

theorem contains_eq (h : ds.Like R ds') (file : Path) : ds'.contains file = ds.contains file := by
  have := h.get? file
  unfold Documents.contains
  generalize ds.get? file = d, ds'.get? file = d' at this ⊢
  cases this <;> rfl

theorem isOutdated_eq (h : ds.Like R ds') (context : Context) :
    context.isOutdated ds' = context.isOutdated ds := by
  rw [Context.isOutdated, h.contains_eq, Context.isOutdated]

theorem modify (h : ds.Like R ds') (file : Path) {change change' : Document → Document}
    (hc : ∀ d d', Document.Like R d d' → (change d).Like R (change' d')) :
    (ds.modify file change).Like R (ds'.modify file change') := by
  refine List.forall₂_map_left_iff.2 (List.forall₂_map_right_iff.2 (h.imp fun d d' hd => ?_))
  rw [hd.file_eq]
  split
  · exact hc d d' hd
  · exact hd

end Documents.Like

/-- Whether two attempts come to the same: both fail with one error, or both give results that are
    related. -/
inductive Attempt.Like {ε α : Type} (P : α → α → Prop) : Except ε α → Except ε α → Prop
  | error (e : ε) : Attempt.Like P (.error e) (.error e)
  | ok {a a' : α} : P a a' → Attempt.Like P (.ok a) (.ok a')

namespace Documents.Like

variable {ds ds' : Documents}

theorem get (h : ds.Like R ds') (file : Path) :
    Attempt.Like (Document.Like R) (ds.get file) (ds'.get file) := by
  have := h.get? file
  unfold Documents.get
  generalize ds.get? file = d, ds'.get? file = d' at this ⊢
  cases this with
  | none => exact .error _
  | some hd => exact .ok hd

theorem opened (h : ds.Like R ds') {d d' : Document} (hd : d.Like R d') :
    Attempt.Like (Documents.Like R) (ds.opened d) (ds'.opened d') := by
  unfold Documents.opened
  rw [hd.file_eq, h.contains_eq]
  split
  · exact .error _
  · exact .ok (List.rel_append h (.cons hd .nil))

theorem closed (h : ds.Like R ds') (file : Path) :
    Attempt.Like (fun c c' => c.2.Like R c'.2) (ds.closed file) (ds'.closed file) := by
  have hget := h.get file
  unfold Documents.closed
  generalize ds.get file = d, ds'.get file = d' at hget ⊢
  cases hget with
  | error e => exact .error e
  | ok hd => exact .ok (List.rel_filter (fun d d' hd => by simp [hd.file_eq]) h)

end Documents.Like

/-! ### Queues -/

/-- Whether all jobs of a queue are those for the kinds of their requests. -/
structure Queue.IsUsual (q : Queue) : Prop where
  factory : q.factory = fun request => .ofKind request.kind
  pending : ∀ job ∈ q.pending, job.procedure = .ofKind job.request.kind
  running : ∀ r ∈ q.running, r.job.procedure = .ofKind r.job.request.kind

/-- Whether two queues only differ in the results that their documents hold, and these only in ids
    that are related. -/
structure Queue.Like (R : List PathId → List PathId → Prop) (q q' : Queue) : Prop where
  usual : q.IsUsual
  eq : ∃ documents, q' = { q with documents } ∧ q.documents.Like R documents

/-- Whether work on two queues is reported in the same way and leaves them alike. -/
structure Queue.SameWork (R : List PathId → List PathId → Prop) (done done' : Report × Queue) :
    Prop where
  report : done'.1 = done.1
  queue : done.2.Like R done'.2

namespace Queue.Like

variable {q q' : Queue}

theorem mono (hRS : ∀ ids ids', R ids ids' → S ids ids') (h : q.Like R q') : q.Like S q' := by
  obtain ⟨husual, documents, heq, hd⟩ := h
  exact ⟨husual, documents, heq, hd.mono hRS⟩

/-- A call gives the same, or fails with the same error. -/
theorem call (h : q.Like R q') (call : Call) :
    Attempt.Like (fun x x' => x'.1 = x.1 ∧ x.2.Like R x'.2) (call.apply q) (call.apply q') := by
  obtain ⟨husual, documents, rfl, hd⟩ := h
  cases call with
  | openDocument file part arguments directory =>
    have hnew : Document.Like R (.new file part q.compiler arguments directory)
        (.new file part q.compiler arguments directory) := ⟨rfl, .none, .none⟩
    have hopened := hd.opened hnew
    simp only [Call.apply, openDocument]
    generalize q.documents.opened _ = o, documents.opened _ = o' at hopened ⊢
    cases hopened with
    | error e => exact .error e
    | ok ho => exact .ok ⟨rfl, ⟨husual.factory, husual.pending, husual.running⟩, _, rfl, ho⟩
  | closeDocument file =>
    have hclosed := hd.closed file
    simp only [Call.apply, closeDocument]
    generalize q.documents.closed _ = o, documents.closed _ = o' at hclosed ⊢
    cases hclosed with
    | error e => exact .error e
    | ok ho => exact .ok ⟨rfl, ⟨husual.factory, husual.pending, husual.running⟩, _, rfl, ho⟩
  | updateDocument file arguments =>
    have hget := hd.get file
    simp only [Call.apply, updateDocument]
    generalize q.documents.get file = o, documents.get file = o' at hget ⊢
    cases hget with
    | error e => exact .error e
    | @ok d d' ho =>
      refine .ok ⟨?_, ⟨husual.factory, husual.pending, husual.running⟩, _, rfl,
        hd.modify file fun _ _ hd => hd.update arguments⟩
      rw [ho.eq]
      rfl
  | add request =>
    simp only [Call.apply, add, hd.contains_eq]
    split
    · exact .error _
    · refine .ok ⟨rfl, ⟨husual.factory, fun job hj => ?_, husual.running⟩, _, rfl, hd⟩
      rcases List.mem_append.1 hj with hj | hj
      · exact husual.pending job hj
      · rw [List.mem_singleton.1 hj, husual.factory]

/-- What is done with a job does not depend on ids, as the job is given a copy without them. -/
theorem start (h : q.Like R q') {job : Job} (hjob : job.procedure = .ofKind job.request.kind) :
    SameWork R (q.start job) (q'.start job) := by
  obtain ⟨husual, documents, rfl, hd⟩ := h
  have hget := hd.get? job.request.file
  simp only [start_eq, Queue.context, hd.isOutdated_eq, hjob, Procedure.prepare_ofKind]
  split
  · exact ⟨rfl, husual, documents, rfl, hd⟩
  · generalize q.documents.get? _ = d, documents.get? _ = d' at hget ⊢
    cases hget with
    | none => exact ⟨rfl, ⟨husual.factory, husual.pending, husual.running⟩, documents, rfl, hd⟩
    | some hsame =>
      simp only [hsame.file_eq, hsame.updateInput_eq]
      refine ⟨rfl, ⟨husual.factory, husual.pending, fun r hr => ?_⟩, documents, rfl, hd⟩
      rcases List.mem_append.1 hr with hr | hr
      · exact husual.running r hr
      · rw [List.mem_singleton.1 hr]

theorem startAll (h : q.Like R q') {jobs : List Job}
    (hjobs : ∀ job ∈ jobs, job.procedure = .ofKind job.request.kind) :
    SameWork R (q.startAll jobs) (q'.startAll jobs) := by
  induction jobs generalizing q q' with
  | nil => exact ⟨rfl, h⟩
  | cons job rest ih =>
    have hfirst := h.start (hjobs job List.mem_cons_self)
    have hrest := ih hfirst.queue fun other ho => hjobs other (List.mem_cons_of_mem _ ho)
    refine ⟨?_, hrest.queue⟩
    simp only [Queue.startAll]
    rw [hfirst.report, hrest.report]

theorem startPending (h : q.Like R q') : SameWork R q.startPending q'.startPending := by
  obtain ⟨husual, documents, rfl, hd⟩ := h
  have hnone : Queue.Like R { q with pending := [] } { q with pending := [], documents } :=
    ⟨⟨husual.factory, by simp, husual.running⟩, documents, rfl, hd⟩
  exact hnone.startAll husual.pending

/-- A result comes into its document, or is dropped, whatever ids it has. -/
theorem deliver (h : q.Like R q') (number : Nat) {result result' : UpdateResult}
    (hresult : result.Like R result') :
    SameWork R (q.deliver number result) (q'.deliver number result') := by
  obtain ⟨husual, documents, rfl, hd⟩ := h
  cases hr : q.running.find? fun r => r.number = number with
  | none =>
    simp only [Queue.deliver, hr]
    exact ⟨rfl, husual, documents, rfl, hd⟩
  | some r =>
    have hproc := husual.running r (List.mem_of_find?_eq_some hr)
    have hrunning : ∀ other ∈ q.running.filter fun other => other.number ≠ number,
        other.job.procedure = .ofKind other.job.request.kind :=
      fun other ho => husual.running other (List.mem_filter.1 ho).1
    rw [deliver_of_find? hr, deliver_of_find? (q := { q with documents }) hr, hproc]
    simp only [Queue.context, Procedure.finalize_ofKind, hd.isOutdated_eq, hd.contains_eq]
    by_cases ho : (⟨r.job.request, q.issued⟩ : Context).isOutdated q.documents = true ∨
      (!q.documents.contains r.job.request.file) = true
    · simp only [if_pos ho]
      exact ⟨rfl, ⟨husual.factory, husual.pending, hrunning⟩, documents, rfl, hd⟩
    · simp only [if_neg ho]
      exact ⟨rfl, ⟨husual.factory, husual.pending, hrunning⟩, _, rfl,
        hd.modify _ fun d d' hsame => hsame.incorporate _ hresult⟩

end Queue.Like

/-- Whether the same results have arrived, but for ids that are related. -/
def Mailbox.Like (R : List PathId → List PathId → Prop) (m m' : List (Nat × UpdateResult)) : Prop :=
  List.Forall₂ (fun a a' => a'.1 = a.1 ∧ a.2.Like R a'.2) m m'

namespace Queue.Like

variable {q q' : Queue} {m m' : List (Nat × UpdateResult)}

theorem deliverAll (h : q.Like R q') (hm : Mailbox.Like R m m') :
    SameWork R (q.deliverAll m) (q'.deliverAll m') := by
  unfold Mailbox.Like at hm
  induction hm generalizing q q' with
  | nil => exact ⟨rfl, h⟩
  | @cons a a' rest rest' ha _ ih =>
    obtain ⟨number, result⟩ := a
    obtain ⟨number', result'⟩ := a'
    obtain ⟨hnumber, hresult⟩ := ha
    obtain rfl : number' = number := hnumber
    have hfirst := h.deliver number' hresult
    have hrest := ih hfirst.queue
    refine ⟨?_, hrest.queue⟩
    simp only [Queue.deliverAll]
    rw [hfirst.report, hrest.report]

theorem process (h : q.Like R q') (hm : Mailbox.Like R m m') :
    SameWork R (q.process m) (q'.process m') := by
  have hfirst := h.deliverAll hm
  have hsecond := hfirst.queue.startPending
  refine ⟨?_, hsecond.queue⟩
  simp only [Queue.process]
  rw [hfirst.report, hsecond.report]

end Queue.Like

/-! ### Clients -/

namespace Workshop

/-- Whether the same goes on at two desks, but for ids that are related. -/
structure Desk.Like (R : List PathId → List PathId → Prop) (d d' : Desk) : Prop where
  queue : d.queue.Like R d'.queue
  mailbox : Mailbox.Like R d.mailbox d'.mailbox
  waiting : d'.waiting = d.waiting

/-- Whether what happens next is the same at two desks. -/
structure Desk.SameNext (R : List PathId → List PathId → Prop) (next next' : Option Answer × Desk) :
    Prop where
  answer : next'.1 = next.1
  desk : next.2.Like R next'.2

namespace Desk.Like

variable {d d' : Desk} {q q' : Queue}

theorem mono (hRS : ∀ ids ids', R ids ids' → S ids ids') (h : d.Like R d') : d.Like S d' :=
  ⟨h.queue.mono hRS, h.mailbox.imp fun _ _ ha => ⟨ha.1, ha.2.mono hRS⟩, h.waiting⟩

theorem await (h : q.Like R q') (report : Report) :
    SameNext R (Desk.await q report) (Desk.await q' report) := by
  have hlike := h
  obtain ⟨-, documents, rfl, -⟩ := h
  unfold Desk.await
  dsimp only
  split
  · exact ⟨rfl, hlike, .nil, rfl⟩
  · exact ⟨rfl, hlike, .nil, rfl⟩

theorem act (h : d.Like R d') (act : Act) : SameNext R (d.act act) (d'.act act) := by
  have hround := h.queue.process h.mailbox
  cases act with
  | call call =>
    have hcall := h.queue.call call
    simp only [Desk.act, Queue.Call.inPlace_eq]
    generalize call.apply d.queue = o, call.apply d'.queue = o' at hcall ⊢
    cases hcall with
    | error e => exact ⟨rfl, h⟩
    | @ok replied replied' hsame =>
      obtain ⟨reply, q⟩ := replied
      obtain ⟨reply', q'⟩ := replied'
      obtain ⟨hreply, hq⟩ := hsame
      exact ⟨congrArg (fun reply => some (Answer.reply reply)) hreply, hq, h.mailbox, h.waiting⟩
  | takeDiagnostics =>
    obtain ⟨⟨husual, documents, heq, hd⟩, hmailbox, hwaiting⟩ := h
    simp only [Desk.act, heq]
    exact ⟨rfl, ⟨⟨husual.factory, husual.pending, husual.running⟩, documents, rfl, hd⟩, hmailbox,
      hwaiting⟩
  | process =>
    simp only [Desk.act]
    exact ⟨by rw [hround.report], hround.queue, .nil, h.waiting⟩
  | wait =>
    simp only [Desk.act]
    rw [hround.report]
    exact await hround.queue _

theorem make_act (h : d.Like R d') (act : Act) :
    SameNext R (d.make (.act act)) (d'.make (.act act)) := by
  simp only [Desk.make, h.waiting]
  split
  · exact h.act act
  · exact ⟨rfl, h⟩

theorem make_receive (h : d.Like R d') : SameNext R (d.make .receive) (d'.make .receive) := by
  have hmailbox := h.mailbox
  simp only [Desk.make, h.waiting]
  generalize d.mailbox = m, d'.mailbox = m' at hmailbox ⊢
  cases d.waiting with
  | none => exact ⟨rfl, h⟩
  | some report =>
    cases hmailbox with
    | nil => exact ⟨rfl, h⟩
    | @cons a a' rest rest' ha hrest =>
      obtain ⟨number, result⟩ := a
      obtain ⟨number', result'⟩ := a'
      obtain ⟨hnumber, hresult⟩ := ha
      obtain rfl : number' = number := hnumber
      have hfirst := h.queue.deliver number' hresult
      have hsecond := hfirst.queue.process hrest
      dsimp only
      rw [hfirst.report, hsecond.report]
      exact await hsecond.queue _

theorem numbers_eq {m m' : List (Nat × UpdateResult)} (h : Mailbox.Like R m m') :
    m'.map Prod.fst = m.map Prod.fst := by
  unfold Mailbox.Like at h
  induction h with
  | nil => rfl
  | cons ha _ ih => rw [List.map_cons, List.map_cons, ha.1, ih]

theorem make_finish (h : d.Like R d') (number : Nat) {result result' : UpdateResult}
    (hresult : result.Like R result') :
    SameNext R (d.make (.finish number result)) (d'.make (.finish number result')) := by
  have hrunning : d'.queue.running = d.queue.running := by
    obtain ⟨-, documents, heq, -⟩ := h.queue
    rw [heq]
  simp only [Desk.make, hrunning, numbers_eq h.mailbox]
  split
  · exact ⟨rfl, h.queue, List.rel_append h.mailbox (.cons ⟨rfl, hresult⟩ .nil), h.waiting⟩
  · exact ⟨rfl, h⟩

end Desk.Like

end Workshop

/-! ### Reparses -/

open PathTable

/-- Whether lists of ids, each of its own table, stand for the same paths one by one. -/
abbrev SamePaths (t t' : PathTable) : List PathId → List PathId → Prop :=
  List.Forall₂ (SamePath t t')

/-- Whether two runs of a job leave the same files and give the same result, but for ids. -/
structure UpdateInput.SameRun (t t' : PathTable)
    (done done' : UpdateResult × FileTree × PathTable) : Prop where
  tree : done'.2.1 = done.2.1
  le : t ≤ done.2.2
  le' : t' ≤ done'.2.2
  result : done.1.Like (SamePaths done.2.2 done'.2.2) done'.1

/-- What a table has seen before takes no part in a reparse. -/
theorem UpdateInput.reparse_like (input : UpdateInput) (frontend : Frontend) (tree : FileTree)
    (t t' : PathTable) :
    SameRun t t' (input.reparse frontend tree t) (input.reparse frontend tree t') := by
  simp only [reparse]
  cases (frontend.preprocess tree input.invocation []).1 with
  | error e => exact ⟨rfl, le_refl t, le_refl t', rfl, rfl, .nil⟩
  | ok found =>
    exact ⟨rfl, le_ids t _, le_ids t' _, rfl, rfl, SamePath.ofIds t t' found.headers⟩

namespace Workshop

/-! ### Workers -/

/-- A desk, with the files and the ids that the workers have. -/
structure Site where
  /-- The queue and its client. -/
  desk : Desk
  /-- The files. -/
  tree : FileTree
  /-- The ids of headers. -/
  table : PathTable

/-- What may happen next, if workers do what they are given. -/
inductive Errand
  /-- The client does something. -/
  | act (act : Act)
  /-- The queue takes the oldest result for a client who waits. -/
  | receive
  /-- A worker runs the job of a number. -/
  | run (number : Nat)
  /-- Files are changed. -/
  | edit (change : FileTree → FileTree)
  /-- Someone else asks for ids. -/
  | see (paths : List Path)

namespace Site

/-- A new queue. -/
def new (compiler : String) (tree : FileTree) (table : PathTable) : Site :=
  ⟨.new compiler, tree, table⟩

/-- Lets something happen. A job is run once. -/
def make (frontend : Frontend) (s : Site) : Errand → Option Answer × Site
  | .act act =>
    let (answer, desk) := s.desk.make (.act act)
    (answer, { s with desk })
  | .receive =>
    let (answer, desk) := s.desk.make .receive
    (answer, { s with desk })
  | .run number =>
    match s.desk.queue.running.find? fun r => r.number = number with
    | none => (none, s)
    | some r =>
      if number ∈ s.desk.mailbox.map Prod.fst then (none, s)
      else
        let (result, tree, table) := r.run.input.reparse frontend s.tree s.table
        let (answer, desk) := s.desk.make (.finish number result)
        (answer, ⟨desk, tree, table⟩)
  | .edit change => (none, { s with tree := change s.tree })
  | .see paths => (none, { s with table := (s.table.ids paths).2 })

/-- Lets things happen one after the other; gives what the client learns. -/
def after (frontend : Frontend) (s : Site) : List Errand → List Answer × Site
  | [] => ([], s)
  | errand :: errands =>
    let (answer, s) := s.make frontend errand
    let (answers, s) := s.after frontend errands
    (answer.toList ++ answers, s)

/-- Whether two sites have the same files, and the same goes on there but for ids. -/
structure Like (s s' : Site) : Prop where
  tree : s'.tree = s.tree
  desk : s.desk.Like (SamePaths s.table s'.table) s'.desk

variable {s s' : Site}

/-- Tables that grow change nothing. -/
theorem Like.grow (h : s.Like s') {t t' : PathTable} (hle : s.table ≤ t) (hle' : s'.table ≤ t')
    (tree : FileTree) : Like ⟨s.desk, tree, t⟩ ⟨s'.desk, tree, t'⟩ :=
  ⟨rfl, h.desk.mono fun _ _ hids => SamePath.mono_all hids hle hle'⟩

theorem Like.make (h : s.Like s') (frontend : Frontend) (errand : Errand) :
    (s'.make frontend errand).1 = (s.make frontend errand).1 ∧
      (s.make frontend errand).2.Like (s'.make frontend errand).2 := by
  cases errand with
  | act act =>
    obtain ⟨hanswer, hdesk⟩ := h.desk.make_act act
    exact ⟨hanswer, h.tree, hdesk⟩
  | receive =>
    obtain ⟨hanswer, hdesk⟩ := h.desk.make_receive
    exact ⟨hanswer, h.tree, hdesk⟩
  | run number =>
    have hrunning : s'.desk.queue.running = s.desk.queue.running := by
      obtain ⟨-, documents, heq, -⟩ := h.desk.queue
      rw [heq]
    simp only [Site.make, hrunning, Desk.Like.numbers_eq h.desk.mailbox, h.tree]
    split
    · exact ⟨rfl, h⟩
    · next r _ =>
      split
      · exact ⟨rfl, h⟩
      · obtain ⟨htree, hle, hle', hresult⟩ :=
          r.run.input.reparse_like frontend s.tree s.table s'.table
        obtain ⟨hanswer, hdesk⟩ := (h.grow hle hle' s.tree).desk.make_finish number hresult
        exact ⟨hanswer, htree, hdesk⟩
  | edit change => exact ⟨rfl, congrArg change h.tree, h.desk⟩
  | see paths => exact ⟨rfl, h.tree, (h.grow (le_ids _ paths) (le_ids _ paths) s.tree).desk⟩

theorem Like.after (h : s.Like s') (frontend : Frontend) (errands : List Errand) :
    (s'.after frontend errands).1 = (s.after frontend errands).1 ∧
      (s.after frontend errands).2.Like (s'.after frontend errands).2 := by
  induction errands generalizing s s' with
  | nil => exact ⟨rfl, h⟩
  | cons errand errands ih =>
    obtain ⟨hanswer, hmake⟩ := h.make frontend errand
    obtain ⟨hanswers, hafter⟩ := ih hmake
    refine ⟨?_, hafter⟩
    simp only [Site.after]
    rw [hanswer, hanswers]

theorem like_new (compiler : String) (tree : FileTree) (t t' : PathTable) :
    (new compiler tree t).Like (new compiler tree t') :=
  ⟨rfl, ⟨⟨rfl, nofun, nofun⟩, .empty, rfl, .nil⟩, .nil, rfl⟩

end Site

end Workshop

/-- Only the numbers of headers depend on what a table has seen before. A pass comes to the same
    with any two tables, and so does whatever a client does with a new queue: the answers, the
    files and the documents are the same, and the ids stand for the same paths. -/
theorem ids_are_names :
    (∀ (g : Generator) (t t' : PathTable), ∃ result after after',
      (g.withWorkspace { g.workspace with table := t }).generate = (result, after) ∧
      (g.withWorkspace { g.workspace with table := t' }).generate = (result, after') ∧
      after.ShowsSame after' ∧ after'.workspace.sink = after.workspace.sink) ∧
    ∀ (compiler : String) (frontend : Frontend) (tree : FileTree) (t t' : PathTable)
      (errands : List Workshop.Errand),
      let (answers, s) := (Workshop.Site.new compiler tree t).after frontend errands
      let (answers', s') := (Workshop.Site.new compiler tree t').after frontend errands
      answers' = answers ∧ s'.tree = s.tree ∧
        s.desk.Like (Generator.ListsSame s.table s'.table) s'.desk := by
  constructor
  · intro g t t'
    have hshares : (g.withWorkspace { g.workspace with table := t }).Shares g.workspace.sink
        g.workspace.sink (g.withWorkspace { g.workspace with table := t' }) :=
      ⟨rfl, rfl, rfl, rfl, [], rfl, rfl⟩
    obtain ⟨result, told, after, after', hg, hg', hshows, htold, htold'⟩ := hshares.generate
    exact ⟨result, after, after', hg, hg', hshows, htold'.trans htold.symm⟩
  · intro compiler frontend tree t t' errands
    obtain ⟨hanswers, hlike⟩ :=
      (Workshop.Site.like_new compiler tree t t').after frontend errands
    exact ⟨hanswers, hlike.tree, hlike.desk.mono fun _ _ => Generator.listsSame_of_samePath⟩

end PrecompiledHeaders
