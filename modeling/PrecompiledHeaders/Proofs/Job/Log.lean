import Mathlib.Data.List.Nodup
import Mathlib.Data.List.Perm.Basic
import PrecompiledHeaders.Proofs.Job.Workshop

/-!
# The log of a workshop

The log says all about a workshop that matters for the order of its results. Two invariants of
runs tie the state to the log, whatever jobs the queue makes:

* `Numbers`: numbers are given out in increasing order, to requests and to closings, and the
  record of issued requests holds, for each unit of each document, the greatest number that was
  given out for it;
* `Accounts`: every issued request is pending, running or settled, and only one of these; results
  in the mailbox belong to running jobs, one to each at the most.

Since numbers increase along the log, a greater number is the same as a later event
(`Run.pair_sublist_iff`); this is how orders of numbers are read as orders of events.
-/

namespace PrecompiledHeaders

/-- A queue with nothing recorded and nothing to do. -/
structure Queue.IsFresh (q : Queue) : Prop where
  issued : q.issued = .empty
  pending : q.pending = []
  running : q.running = []

theorem Queue.isFresh_new (compiler : String) : (Queue.new compiler).IsFresh := ⟨rfl, rfl, rfl⟩

namespace Workshop

/-! ### Orders of numbers and of places -/

section Places

open List

variable {α : Type} {f : α → Option Nat} {l : List α} {a b c : α} {m n : Nat}

theorem lt_of_pair_sublist (h : (l.filterMap f).Pairwise (· < ·)) (hab : [a, b] <+ l)
    (ha : f a = some m) (hb : f b = some n) : m < n := by
  have hs : [m, n] <+ l.filterMap f := by simpa [ha, hb] using hab.filterMap f
  simpa using h.sublist hs

theorem pair_sublist_of_lt (h : (l.filterMap f).Pairwise (· < ·)) (hma : a ∈ l) (hmb : b ∈ l)
    (ha : f a = some m) (hb : f b = some n) (hlt : m < n) : [a, b] <+ l := by
  induction l with
  | nil => cases hma
  | cons x l ih =>
    rcases List.mem_cons.1 hma with rfl | hma'
    · rcases List.mem_cons.1 hmb with rfl | hmb'
      · exact absurd (Option.some.inj (ha.symm.trans hb)) (Nat.ne_of_lt hlt)
      · exact (List.singleton_sublist.2 hmb').cons_cons _
    · rcases List.mem_cons.1 hmb with rfl | hmb'
      · -- The greater number would stand in front of the smaller one.
        rw [List.filterMap_cons_some hb, List.pairwise_cons] at h
        have := h.1 m (List.mem_filterMap.2 ⟨a, hma', ha⟩)
        omega
      · refine (ih ?_ hma' hmb').cons _
        exact h.sublist ((sublist_cons_self x l).filterMap f)

theorem pair_sublist_concat : [a, b] <+ l ++ [c] ↔ [a, b] <+ l ∨ (a ∈ l ∧ b = c) := by
  have hl : [a, b] <+ l ↔ [b, a] <+ l.reverse := by rw [← List.reverse_sublist]; simp
  have hc : [a, b] <+ l ++ [c] ↔ [b, a] <+ c :: l.reverse := by
    rw [← List.reverse_sublist]; simp
  rw [hl, hc, List.sublist_cons_iff]
  refine or_congr_right ⟨?_, ?_⟩
  · rintro ⟨r, hr, h⟩
    rw [List.cons.injEq] at hr
    obtain ⟨rfl, rfl⟩ := hr
    exact ⟨by simpa using h, rfl⟩
  · rintro ⟨h, rfl⟩
    exact ⟨[a], rfl, by simpa using h⟩

end Places

/-! ### What events say -/

namespace Event

/-- The number that an event has used up. -/
def number? : Event → Option Nat
  | .issued request => some request.issuedAt
  | .closed _ number => some number
  | _ => none

/-- The request that an event issues. -/
def issued? : Event → Option Request
  | .issued request => some request
  | _ => none

/-- The request whose job is through with an event. -/
def settled? : Event → Option Request
  | .cancelled request | .refused request => some request
  | .applied request _ | .outdated request _ => some request
  | _ => none

/-- Whether an event, coming after a request, makes its result worthless: the document is closed,
    or there is a newer request for the same unit of it. -/
def Supersedes (unitOf : Request → UnitKind) (request : Request) : Event → Prop
  | .issued other => Path.Same request.file other.file ∧ unitOf request = unitOf other
  | .closed file _ => Path.Same request.file file
  | _ => False

/-- Whether an event notes its number for a unit of a document. -/
def IsAbout (file : Path) (unit : UnitKind) : Event → Prop
  | .issued request => Path.Same file request.file ∧ unit = request.unit
  | .closed other _ => Path.Same file other
  | _ => False

theorem supersedes_iff {request : Request} {e : Event} :
    e.Supersedes Request.unit request ↔ e.IsAbout request.file request.unit := by
  cases e <;> rfl

theorem IsAbout.number {file : Path} {unit : UnitKind} {e : Event} (h : e.IsAbout file unit) :
    ∃ n, e.number? = some n := by
  cases e with
  | issued request => exact ⟨_, rfl⟩
  | closed other number => exact ⟨_, rfl⟩
  | _ => cases h

end Event

/-! ### Numbers -/

/-- Numbers increase, and the greatest ones are recorded. -/
structure Numbers (log : Log) (q : Queue) : Prop where
  lt_nextIssue : ∀ e ∈ log, ∀ n, e.number? = some n → n < q.nextIssue
  increasing : (log.filterMap Event.number?).Pairwise (· < ·)
  mem_of_latest? : ∀ file unit n, q.issued.latest? file unit = some n →
    ∃ e ∈ log, e.IsAbout file unit ∧ e.number? = some n
  le_latest? : ∀ e ∈ log, ∀ file unit n, e.IsAbout file unit → e.number? = some n →
    ∃ m, q.issued.latest? file unit = some m ∧ n ≤ m

theorem Numbers.of_isFresh {q : Queue} (h : q.IsFresh) : Numbers [] q where
  lt_nextIssue _ he := absurd he List.not_mem_nil
  increasing := .nil
  mem_of_latest? file unit n hn := by rw [h.issued] at hn; cases hn
  le_latest? _ he := absurd he List.not_mem_nil

/-- Events that use up no number leave the record alone. -/
theorem Step.issued_eq {w w' : Workshop} {e : Event} (h : Step w e w') (he : e.number? = none) :
    w'.queue.nextIssue = w.queue.nextIssue ∧ w'.queue.issued = w.queue.issued := by
  cases h with
  | opened h => obtain ⟨_, -, rfl⟩ := Queue.openDocument_eq_ok h; exact ⟨rfl, rfl⟩
  | closed h => cases he
  | updated h => rw [Queue.updateDocument_eq_ok h]; exact ⟨rfl, rfl⟩
  | issued h => cases he
  | cancelled _ h => rw [(Queue.start_cancelled h).2]; exact ⟨rfl, rfl⟩
  | refused _ h => rw [(Queue.start_refused h).2.2]; exact ⟨rfl, rfl⟩
  | started _ h => obtain ⟨-, _, -, rfl⟩ := Queue.start_started h; exact ⟨rfl, rfl⟩
  | finished => exact ⟨rfl, rfl⟩
  | applied _ hr h | outdated _ hr h =>
    obtain ⟨documents, rfl⟩ := Queue.eq_of_deliver hr h
    exact ⟨rfl, rfl⟩

/-- Jobs that are running were running before, or have just been started. -/
theorem Step.mem_running {w w' : Workshop} {e : Event} (h : Step w e w')
    (he : ∀ request, e ≠ .started request) : ∀ r ∈ w'.queue.running, r ∈ w.queue.running := by
  cases h with
  | opened h => obtain ⟨_, -, rfl⟩ := Queue.openDocument_eq_ok h; exact fun _ hr => hr
  | closed h => obtain ⟨_, _, -, rfl⟩ := Queue.closeDocument_eq_ok h; exact fun _ hr => hr
  | updated h => rw [Queue.updateDocument_eq_ok h]; exact fun _ hr => hr
  | issued h => obtain ⟨-, -, rfl⟩ := Queue.add_eq_ok h; exact fun _ hr => hr
  | cancelled _ h => rw [(Queue.start_cancelled h).2]; exact fun _ hr => hr
  | refused _ h => rw [(Queue.start_refused h).2.2]; exact fun _ hr => hr
  | started => exact absurd rfl (he _)
  | finished => exact fun _ hr => hr
  | applied _ hr h | outdated _ hr h =>
    obtain ⟨documents, rfl⟩ := Queue.eq_of_deliver hr h
    exact fun _ hr => (List.mem_filter.1 hr).1

/-- Giving out the next number keeps the numbers in order, if the record takes it in. -/
theorem Numbers.concat {log : Log} {q q' : Queue} {e : Event} (h : Numbers log q)
    (he : e.number? = some q.nextIssue) (hnext : q'.nextIssue = q.nextIssue + 1)
    (habout : ∀ file unit, e.IsAbout file unit →
      q'.issued.latest? file unit = some ((q.issued.latest? file unit).elim q.nextIssue
        (max · q.nextIssue)))
    (hother : ∀ file unit, ¬e.IsAbout file unit →
      q'.issued.latest? file unit = q.issued.latest? file unit) :
    Numbers (log ++ [e]) q' where
  lt_nextIssue e' he' n hn := by
    rw [hnext]
    rcases List.mem_append.1 he' with h' | h'
    · have := h.lt_nextIssue e' h' n hn
      omega
    · rw [List.mem_singleton.1 h', he] at hn
      cases hn
      omega
  increasing := by
    rw [List.filterMap_append, List.pairwise_append]
    refine ⟨h.increasing, by simp [he], fun m hm n hn => ?_⟩
    obtain ⟨e', he', hm⟩ := List.mem_filterMap.1 hm
    simp only [List.filterMap_cons, he, List.filterMap_nil, List.mem_singleton] at hn
    rw [hn]
    exact h.lt_nextIssue e' he' m hm
  mem_of_latest? file unit n hn := by
    by_cases ha : e.IsAbout file unit
    · rw [habout file unit ha] at hn
      -- The next number is greater than all that were recorded.
      refine ⟨e, by simp, ha, he.trans (hn ▸ ?_)⟩
      cases hl : q.issued.latest? file unit with
      | none => rfl
      | some old =>
        obtain ⟨e', he', -, hold⟩ := h.mem_of_latest? file unit old hl
        have := h.lt_nextIssue e' he' old hold
        simp only [Option.elim_some]
        rw [Nat.max_eq_right (by omega)]
    · rw [hother file unit ha] at hn
      obtain ⟨e', he', h'⟩ := h.mem_of_latest? file unit n hn
      exact ⟨e', List.mem_append_left _ he', h'⟩
  le_latest? e' he' file unit n ha hn := by
    -- The record never goes down, so older events keep their bounds. The new event is recorded
    -- itself, or something that is greater.
    rcases List.mem_append.1 he' with h' | h'
    · obtain ⟨m, hm, hle⟩ := h.le_latest? e' h' file unit n ha hn
      by_cases hab : e.IsAbout file unit
      · rw [habout file unit hab, hm]
        exact ⟨_, rfl, Nat.le_trans hle (Nat.le_max_left _ _)⟩
      · exact ⟨m, (hother file unit hab).trans hm, hle⟩
    · rw [List.mem_singleton.1 h'] at ha hn
      rw [he] at hn
      cases hn
      rw [habout file unit ha]
      cases q.issued.latest? file unit with
      | none => exact ⟨_, rfl, Nat.le_refl _⟩
      | some old => exact ⟨_, rfl, Nat.le_max_right _ _⟩

/-- What uses up no number leaves the numbers in order. -/
theorem Numbers.frame {log : Log} {q q' : Queue} {e : Event} (h : Numbers log q)
    (he : e.number? = none) (hnext : q'.nextIssue = q.nextIssue) (hissued : q'.issued = q.issued) :
    Numbers (log ++ [e]) q' where
  lt_nextIssue e' he' n hn := by
    rcases List.mem_append.1 he' with h' | h'
    · exact hnext ▸ h.lt_nextIssue e' h' n hn
    · rw [List.mem_singleton.1 h', he] at hn
      cases hn
  increasing := by
    rw [List.filterMap_append]
    simpa [he] using h.increasing
  mem_of_latest? file unit n hl := by
    rw [hissued] at hl
    obtain ⟨e', he', h'⟩ := h.mem_of_latest? file unit n hl
    exact ⟨e', List.mem_append_left _ he', h'⟩
  le_latest? e' he' file unit n ha hn := by
    rw [hissued]
    rcases List.mem_append.1 he' with h' | h'
    · exact h.le_latest? e' h' file unit n ha hn
    · rw [List.mem_singleton.1 h', he] at hn
      cases hn

theorem Numbers.step {log : Log} {w w' : Workshop} {e : Event} (h : Numbers log w.queue)
    (hs : Step w e w') : Numbers (log ++ [e]) w'.queue := by
  -- Only requests and closings use up numbers.
  cases hn : e.number? with
  | none =>
    obtain ⟨hnext, hissued⟩ := hs.issued_eq hn
    exact h.frame hn hnext hissued
  | some number =>
    cases hs with
    | closed hc =>
      obtain ⟨document, documents, -, rfl⟩ := Queue.closeDocument_eq_ok hc
      refine h.concat rfl rfl (fun file unit ha => ?_) (fun file unit ha => ?_)
      · exact (IssuedRequests.latest?_retire ..).trans (if_pos ha)
      · exact (IssuedRequests.latest?_retire ..).trans (if_neg ha)
    | issued ha =>
      obtain ⟨-, hr, rfl⟩ := Queue.add_eq_ok ha
      refine h.concat (congrArg some hr) rfl (fun file unit ha => ?_) (fun file unit ha => ?_)
      · exact hr ▸ (IssuedRequests.latest?_raise ..).trans (if_pos ha)
      · exact (IssuedRequests.latest?_raise ..).trans (if_neg ha)
    | _ => cases hn

/-- Later requests have greater numbers. -/
theorem Numbers.pairwise_issued {log : Log} {q : Queue} (h : Numbers log q) :
    (log.filterMap Event.issued?).Pairwise fun r s => r.issuedAt < s.issuedAt := by
  rw [List.pairwise_filterMap]
  refine (List.pairwise_filterMap.1 h.increasing).imp fun {e e'} hlt r hr s hs => ?_
  cases e <;> cases hr
  cases e' <;> cases hs
  exact hlt _ rfl _ rfl

theorem Numbers.nodup_issued {log : Log} {q : Queue} (h : Numbers log q) :
    ((log.filterMap Event.issued?).map Request.issuedAt).Nodup := by
  rw [List.Nodup, List.pairwise_map]
  exact h.pairwise_issued.imp Nat.ne_of_lt

/-! ### Accounts -/

theorem Event.mem_issued? {log : Log} {r : Request} :
    r ∈ log.filterMap Event.issued? ↔ .issued r ∈ log := by
  rw [List.mem_filterMap]
  constructor
  · rintro ⟨e, he, hr⟩
    cases e <;> cases hr
    exact he
  · exact fun h => ⟨_, h, rfl⟩

/-- Every issued request is pending, running or settled, once; and the results in the mailbox are
    those of different running jobs. -/
structure Accounts (log : Log) (w : Workshop) : Prop where
  number : ∀ r ∈ w.queue.running, r.number = r.job.request.issuedAt
  once : ∀ r, (w.queue.pending.map Job.request).count r +
    (w.queue.running.map (·.job.request)).count r + (log.filterMap Event.settled?).count r =
      (log.filterMap Event.issued?).count r
  nodup_mailbox : (w.mailbox.map Prod.fst).Nodup
  finished : ∀ number result, (number, result) ∈ w.mailbox → ∃ r ∈ w.queue.running,
    r.number = number ∧ .finished r.job.request result ∈ log

theorem Accounts.of_isFresh {q : Queue} (h : q.IsFresh) : Accounts [] ⟨q, []⟩ where
  number := by simp [h.running]
  once := by simp [h.pending, h.running]
  nodup_mailbox := .nil
  finished := by simp

section Accounts

variable {log : Log} {w w' : Workshop} {e : Event}

theorem Accounts.perm (h : Accounts log w) : (w.queue.pending.map Job.request ++
    w.queue.running.map (·.job.request) ++ log.filterMap Event.settled?).Perm
      (log.filterMap Event.issued?) :=
  List.perm_iff_count.2 fun r => by
    rw [List.count_append, List.count_append]
    exact h.once r

theorem Accounts.nodup_running (h : Accounts log w) (hn : Numbers log w.queue) :
    (w.queue.running.map RunningJob.number).Nodup := by
  have hall := (h.perm.map Request.issuedAt).nodup_iff.2 hn.nodup_issued
  have hsub : (w.queue.running.map (·.job.request)).Sublist (w.queue.pending.map Job.request ++
      w.queue.running.map (·.job.request) ++ log.filterMap Event.settled?) :=
    (List.sublist_append_right _ _).trans (List.sublist_append_left _ _)
  have heq : w.queue.running.map RunningJob.number =
      (w.queue.running.map (·.job.request)).map Request.issuedAt := by
    rw [List.map_map]
    exact List.map_congr_left h.number
  rw [heq]
  exact hall.sublist (hsub.map _)

/-- Taking the job with some number out of jobs with different numbers. -/
theorem perm_cons_filter {l : List RunningJob} (hn : (l.map RunningJob.number).Nodup)
    {r : RunningJob} (hr : r ∈ l) : l.Perm (r :: l.filter fun other => other.number ≠ r.number) := by
  induction l with
  | nil => cases hr
  | cons x l ih =>
    rw [List.map_cons, List.nodup_cons] at hn
    have hne (y : RunningJob) (hy : y ∈ l) : y.number ≠ x.number := fun heq =>
      hn.1 (heq ▸ List.mem_map_of_mem hy)
    -- The numbers differ, so that no other job is taken out.
    rcases List.mem_cons.1 hr with rfl | hr'
    · rw [List.filter_cons_of_neg (by simp), List.filter_eq_self.2 (by simpa using hne)]
    · rw [List.filter_cons_of_pos (by simpa using (hne r hr').symm)]
      exact ((ih hn.2 hr').cons x).trans (.swap ..)

/-- As long as no job ends, the results in the mailbox are those of running jobs. -/
theorem Accounts.finished_concat (h : Accounts log w) {running : List RunningJob}
    (hr : ∀ r ∈ w.queue.running, r ∈ running) (e : Event) :
    ∀ number result, (number, result) ∈ w.mailbox → ∃ r ∈ running,
      r.number = number ∧ .finished r.job.request result ∈ log ++ [e] := by
  intro number result hm
  obtain ⟨r, hmem, hnum, hlog⟩ := h.finished number result hm
  exact ⟨r, hr r hmem, hnum, List.mem_append_left _ hlog⟩

/-- What neither makes nor takes a job, nor a result, leaves the accounts in order. -/
theorem Accounts.frame (h : Accounts log w) {q : Queue} (hp : q.pending = w.queue.pending)
    (hr : q.running = w.queue.running) (hs : e.settled? = none) (hi : e.issued? = none) :
    Accounts (log ++ [e]) ⟨q, w.mailbox⟩ where
  number := by simpa only [hr] using h.number
  once := by simpa [hp, hr, hs, hi] using h.once
  nodup_mailbox := h.nodup_mailbox
  finished := h.finished_concat (fun _ hmem => hr ▸ hmem) e

/-- A request that is issued has a pending job. -/
theorem Accounts.add (h : Accounts log w) {q : Queue} {job : Job}
    (hp : q.pending = w.queue.pending ++ [job]) (hr : q.running = w.queue.running)
    (hs : e.settled? = none) (hi : e.issued? = some job.request) :
    Accounts (log ++ [e]) ⟨q, w.mailbox⟩ where
  number := by simpa only [hr] using h.number
  once r := by
    have := h.once r
    simp only [hp, hr, hs, hi, List.filterMap_append, List.filterMap_cons, List.filterMap_nil,
      List.append_nil, List.map_append, List.map_cons, List.map_nil, List.count_append,
      List.count_cons, List.count_nil]
    omega
  nodup_mailbox := h.nodup_mailbox
  finished := h.finished_concat (fun _ hmem => hr ▸ hmem) e

/-- A pending job that is not started is settled. -/
theorem Accounts.drop (h : Accounts log w) {q : Queue} {job : Job}
    (hp : w.queue.pending = job :: q.pending) (hr : q.running = w.queue.running)
    (hs : e.settled? = some job.request) (hi : e.issued? = none) :
    Accounts (log ++ [e]) ⟨q, w.mailbox⟩ where
  number := by simpa only [hr] using h.number
  once r := by
    have := h.once r
    simp only [hp, hr, hs, hi, List.filterMap_append, List.filterMap_cons, List.filterMap_nil,
      List.append_nil, List.count_append, List.map_cons, List.count_cons, List.count_nil] at this ⊢
    omega
  nodup_mailbox := h.nodup_mailbox
  finished := h.finished_concat (fun _ hmem => hr ▸ hmem) e

/-- A pending job that is started is running. -/
theorem Accounts.start (h : Accounts log w) {q : Queue} {job : Job} {r : RunningJob}
    (hp : w.queue.pending = job :: q.pending) (hr : q.running = w.queue.running ++ [r])
    (hjob : r.job.request = job.request) (hnum : r.number = job.request.issuedAt)
    (hs : e.settled? = none) (hi : e.issued? = none) :
    Accounts (log ++ [e]) ⟨q, w.mailbox⟩ where
  number other ho := by
    rw [hr] at ho
    rcases List.mem_append.1 ho with ho' | ho'
    · exact h.number other ho'
    · rw [List.mem_singleton.1 ho', hnum, hjob]
  once s := by
    have := h.once s
    simp only [hp, hr, hjob, hs, hi, List.filterMap_append, List.filterMap_cons,
      List.filterMap_nil, List.append_nil, List.map_append, List.map_cons, List.map_nil,
      List.count_append, List.count_cons, List.count_nil] at this ⊢
    omega
  nodup_mailbox := h.nodup_mailbox
  finished := h.finished_concat (fun _ hmem => hr ▸ List.mem_append_left _ hmem) e

/-- A job whose run is through runs on until its result is taken. -/
theorem Accounts.finish (h : Accounts log w) {r : RunningJob} {result : UpdateResult}
    (hr : r ∈ w.queue.running) (hnot : r.number ∉ w.mailbox.map Prod.fst) :
    Accounts (log ++ [.finished r.job.request result])
      { w with mailbox := w.mailbox ++ [(r.number, result)] } where
  number := h.number
  once s := by
    simpa only [Event.settled?, Event.issued?, List.filterMap_append, List.filterMap_cons,
      List.filterMap_nil, List.append_nil] using h.once s
  nodup_mailbox := by
    rw [List.map_append, List.nodup_append]
    refine ⟨h.nodup_mailbox, by simp, ?_⟩
    rintro a ha b hb rfl
    cases List.mem_singleton.1 hb
    exact hnot ha
  finished number' result' hm := by
    rcases List.mem_append.1 hm with hm' | hm'
    · exact h.finished_concat (fun _ hmem => hmem) _ number' result' hm'
    · cases List.mem_singleton.1 hm'
      exact ⟨r, hr, rfl, List.mem_append_right _ (List.mem_singleton_self _)⟩

/-- A running job whose result is taken is settled. -/
theorem Accounts.take (h : Accounts log w) (hn : Numbers log w.queue) {q : Queue} {r : RunningJob}
    {number : Nat} {result : UpdateResult} {rest : List (Nat × UpdateResult)}
    (hm : w.mailbox = (number, result) :: rest)
    (hr : w.queue.running.find? (fun other => other.number = number) = some r)
    (hp : q.pending = w.queue.pending)
    (hq : q.running = w.queue.running.filter fun other => other.number ≠ number)
    (hs : e.settled? = some r.job.request) (hi : e.issued? = none) :
    Accounts (log ++ [e]) ⟨q, rest⟩ where
  number other ho := by
    rw [hq] at ho
    exact h.number other (List.mem_filter.1 ho).1
  once s := by
    have hnum : r.number = number := by simpa using List.find?_some hr
    have hperm := (perm_cons_filter (h.nodup_running hn) (List.mem_of_find?_eq_some hr)).map
      (·.job.request)
    rw [hnum, ← hq, List.map_cons] at hperm
    -- The request goes from the running ones to the settled ones, which leaves the sum as it is.
    have := h.once s
    rw [hperm.count_eq s] at this
    simp only [hp, hs, hi, List.filterMap_append, List.filterMap_cons, List.filterMap_nil,
      List.append_nil, List.count_append, List.count_cons, List.count_nil] at this ⊢
    omega
  nodup_mailbox := by
    have := h.nodup_mailbox
    rw [hm, List.map_cons, List.nodup_cons] at this
    exact this.2
  finished number' result' hm' := by
    have hnd := h.nodup_mailbox
    rw [hm, List.map_cons, List.nodup_cons] at hnd
    obtain ⟨other, ho, hnum, hlog⟩ := h.finished number' result' (hm ▸ List.mem_cons_of_mem _ hm')
    -- The other results in the mailbox have other numbers.
    have hne : number' ≠ number := fun heq => hnd.1 (heq ▸ List.mem_map.2 ⟨_, hm', rfl⟩)
    refine ⟨other, ?_, hnum, List.mem_append_left _ hlog⟩
    rw [hq, List.mem_filter]
    exact ⟨ho, by simpa [hnum] using hne⟩

theorem Accounts.step (h : Accounts log w) (hn : Numbers log w.queue) (hs : Step w e w') :
    Accounts (log ++ [e]) w' := by
  cases hs with
  | opened ho =>
    obtain ⟨documents, -, rfl⟩ := Queue.openDocument_eq_ok ho
    exact h.frame rfl rfl rfl rfl
  | closed hc =>
    obtain ⟨document, documents, -, rfl⟩ := Queue.closeDocument_eq_ok hc
    exact h.frame rfl rfl rfl rfl
  | updated hu =>
    rw [Queue.updateDocument_eq_ok hu]
    exact h.frame rfl rfl rfl rfl
  | issued ha =>
    obtain ⟨-, -, rfl⟩ := Queue.add_eq_ok ha
    exact h.add rfl rfl rfl rfl
  | cancelled hp hq =>
    rw [(Queue.start_cancelled hq).2]
    exact h.drop hp rfl rfl rfl
  | refused hp hq =>
    rw [(Queue.start_refused hq).2.2]
    exact h.drop hp rfl rfl rfl
  | started hp hq =>
    obtain ⟨-, run, -, rfl⟩ := Queue.start_started hq
    exact h.start hp rfl rfl rfl rfl rfl
  | finished hr hnot => exact h.finish hr hnot
  | applied hm hr hq | outdated hm hr hq =>
    obtain ⟨documents, rfl⟩ := Queue.eq_of_deliver hr hq
    exact h.take hn hm hr rfl rfl rfl rfl

end Accounts

/-! ### Runs -/

section Run

variable {q₀ : Queue} {log : Log} {w : Workshop}

theorem Run.numbers (h₀ : q₀.IsFresh) (h : Run q₀ log w) : Numbers log w.queue := by
  induction h with
  | start => exact .of_isFresh h₀
  | step _ hs ih => exact ih.step hs

theorem Run.accounts (h₀ : q₀.IsFresh) (h : Run q₀ log w) : Accounts log w := by
  induction h with
  | start => exact .of_isFresh h₀
  | step h hs ih => exact ih.step (h.numbers h₀) hs

/-- Greater numbers stand later in the log. -/
theorem Run.pair_sublist_iff (h₀ : q₀.IsFresh) (h : Run q₀ log w) {a b : Event} {m n : Nat}
    (ha : a ∈ log) (hb : b ∈ log) (hm : a.number? = some m) (hn : b.number? = some n) :
    [a, b].Sublist log ↔ m < n :=
  ⟨fun hab => lt_of_pair_sublist (h.numbers h₀).increasing hab hm hn,
    pair_sublist_of_lt (h.numbers h₀).increasing ha hb hm hn⟩

/-- A request is superseded in the record if an event after it says so. -/
theorem Run.isSuperseded_iff (h₀ : q₀.IsFresh) (h : Run q₀ log w) {r : Request}
    (hr : .issued r ∈ log) : w.queue.issued.isSuperseded r ↔
      ∃ e, e.Supersedes Request.unit r ∧ [.issued r, e].Sublist log := by
  simp only [IssuedRequests.isSuperseded, Option.any_eq_true, decide_eq_true_eq]
  constructor
  · rintro ⟨n, hn, hlt⟩
    -- The number that is recorded was given out to some event, which is the one to be shown.
    obtain ⟨e, he, habout, hnum⟩ := (h.numbers h₀).mem_of_latest? _ _ n hn
    exact ⟨e, Event.supersedes_iff.2 habout, (h.pair_sublist_iff h₀ hr he rfl hnum).2 hlt⟩
  · rintro ⟨e, hsup, hsub⟩
    have he : e ∈ log := hsub.subset (by simp)
    obtain ⟨n, hn⟩ := (Event.supersedes_iff.1 hsup).number
    obtain ⟨m, hm, hle⟩ := (h.numbers h₀).le_latest? e he _ _ n (Event.supersedes_iff.1 hsup) hn
    have := (h.pair_sublist_iff h₀ hr he rfl hn).1 hsub
    exact ⟨m, hm, by omega⟩

/-- A request that has a job, or had one, was issued. -/
theorem Run.issued_of_mem (h₀ : q₀.IsFresh) (h : Run q₀ log w) {r : Request}
    (hr : r ∈ w.queue.pending.map Job.request ∨ r ∈ w.queue.running.map (·.job.request) ∨
      r ∈ log.filterMap Event.settled?) : .issued r ∈ log := by
  rw [← Event.mem_issued?, ← (h.accounts h₀).perm.mem_iff]
  simpa [or_assoc] using hr

/-- Requests are told apart by their numbers. -/
theorem Run.eq_of_issuedAt_eq (h₀ : q₀.IsFresh) (h : Run q₀ log w) {r s : Request}
    (hr : .issued r ∈ log) (hs : .issued s ∈ log) (heq : r.issuedAt = s.issuedAt) : r = s :=
  List.inj_on_of_nodup_map (h.numbers h₀).nodup_issued (Event.mem_issued?.2 hr)
    (Event.mem_issued?.2 hs) heq

/-- A request whose job is running is not settled. -/
theorem Run.not_settled_of_running (h₀ : q₀.IsFresh) (h : Run q₀ log w) {r : Request}
    (hr : r ∈ w.queue.running.map (·.job.request)) : r ∉ log.filterMap Event.settled? := by
  intro hs
  have hone := List.nodup_iff_count_le_one.1 (h.numbers h₀).nodup_issued.of_map r
  have honce := (h.accounts h₀).once r
  have := List.count_pos_iff.2 hr
  have := List.count_pos_iff.2 hs
  omega

end Run

end Workshop

end PrecompiledHeaders
