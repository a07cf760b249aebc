import PrecompiledHeaders.Proofs.Job.Freshness

/-!
# Supersession

Whether a request supersedes another one is judged on the units that the two *prefer*, while a job
for the supportive unit writes that unit whatever its request prefers. A request is *crossed* if
these are different units.

Judged on either unit, one would want two things of a log: results come into a unit of a document
in the order of their requests (`InOrder`), and a job is dropped only behind an event that
supersedes its request (`DroppedLate`). `superseded_by_preference` says that both hold of all runs
for the units that are preferred, and when they hold for the units that are written: if no request
is crossed, or if all are.
-/

namespace PrecompiledHeaders

/-- Whether the job for a request writes another unit than the one that the request prefers. -/
def Request.IsCrossed (request : Request) : Prop := request.writes ≠ request.unit

theorem Request.isCrossed_iff {request : Request} :
    request.IsCrossed ↔ request.kind = .supportive ∧ request.unit = .primary := by
  unfold IsCrossed writes
  cases request.kind <;> cases request.unit <;> simp

namespace Workshop

variable {q₀ : Queue} {compiler : String} {log : Log} {w w' : Workshop} {e : Event} {r s : Request}
  {unitOf unitOf' : Request → UnitKind}

/-- The events by which the job of a request is dropped. -/
def Event.Drops (request : Request) : Event → Prop
  | .cancelled other | .outdated other _ => other = request
  | _ => False

/-- Results for one unit of one document come in the order of their requests. -/
def InOrder (unitOf : Request → UnitKind) (log : Log) : Prop :=
  ∀ r s result result', [.applied r result, .applied s result'].Sublist log →
    Path.Same r.file s.file → unitOf r = unitOf s → r.issuedAt < s.issuedAt

/-- Jobs are dropped only behind an event that supersedes their request. -/
def DroppedLate (unitOf : Request → UnitKind) (log : Log) : Prop :=
  ∀ r, ∀ d ∈ log, d.Drops r → ∃ e, e.Supersedes unitOf r ∧ [.issued r, e, d].Sublist log

/-! ### Preferred units -/

theorem Run.inOrder (h : Run (.new compiler) log w) : InOrder Request.unit log := by
  induction h with
  | start => exact fun r s _ _ hsub => absurd (hsub.subset List.mem_cons_self) List.not_mem_nil
  | @step log w w' e h hs ih =>
    intro r s result result' hsub hf hu
    rcases pair_sublist_concat.1 hsub with hsub' | ⟨hr, rfl⟩
    · exact ih r s result result' hsub' hf hu
    have hsettled : r ∈ log.filterMap Event.settled? := List.mem_filterMap.2 ⟨_, hr, rfl⟩
    have hrlog := h.issued_of_mem (Queue.isFresh_new _) (.inr (.inr hsettled))
    obtain ⟨hslog, hcurrent, -⟩ := h.of_applied hs
    refine Nat.lt_of_le_of_ne (Nat.le_of_not_lt fun hlt => ?_) fun heq => ?_
    · -- The older request would be superseded by the newer one.
      have hsub := (h.pair_sublist_iff (Queue.isFresh_new _) hslog hrlog rfl rfl).2 hlt
      have := (h.isOutdated_iff hslog).2 ⟨.issued r, ⟨hf.symm, hu.symm⟩, hsub⟩
      simp [this] at hcurrent
    · -- One request would be settled twice.
      cases h.eq_of_issuedAt_eq (Queue.isFresh_new _) hrlog hslog heq
      exact h.not_settled_of_running (Queue.isFresh_new _) hs.mem_running_of_applied hsettled

theorem Run.droppedLate (h : Run (.new compiler) log w) : DroppedLate Request.unit log := by
  induction h with
  | start => exact fun _ d hd => absurd hd List.not_mem_nil
  | @step log w w' e h hs ih =>
    intro r d hd hdrops
    rcases List.mem_append.1 hd with hd' | hd'
    · obtain ⟨e', hsup, hsub⟩ := ih r d hd' hdrops
      exact ⟨e', hsup, hsub.trans (List.sublist_append_left _ _)⟩
    cases List.mem_singleton.1 hd'
    -- However the job was dropped, it was outdated at that time.
    have ho : .issued r ∈ log ∧ (w.queue.context r).isOutdated w.queue.documents = true := by
      cases e with
      | cancelled other => cases hdrops; exact (h.of_cancelled hs).imp_right And.left
      | outdated other result => cases hdrops; exact (h.of_outdated hs).imp_right And.left
      | _ => cases hdrops
    obtain ⟨e', hsup, hsub⟩ := (h.isOutdated_iff ho.1).1 ho.2
    exact ⟨e', hsup, hsub.append (List.Sublist.refl [e])⟩

/-! ### Written units -/

theorem InOrder.congr (h : InOrder unitOf log)
    (hu : ∀ r s, .issued r ∈ log → .issued s ∈ log → unitOf' r = unitOf' s → unitOf r = unitOf s)
    (hissued : ∀ r result, .applied r result ∈ log → .issued r ∈ log) : InOrder unitOf' log :=
  fun r s result result' hsub hf heq => h r s result result' hsub hf <|
    hu r s (hissued r result (hsub.subset (by simp))) (hissued s result' (hsub.subset (by simp)))
      heq

theorem DroppedLate.congr (h : DroppedLate unitOf log)
    (hu : ∀ r s, .issued r ∈ log → .issued s ∈ log → unitOf r = unitOf s → unitOf' r = unitOf' s) :
    DroppedLate unitOf' log := by
  intro r d hd hdrops
  obtain ⟨e, hsup, hsub⟩ := h r d hd hdrops
  refine ⟨e, ?_, hsub⟩
  cases e with
  | issued s => exact ⟨hsup.1, hu r s (hsub.subset (by simp)) (hsub.subset (by simp)) hsup.2⟩
  | _ => exact hsup

/-- Written units are told apart by preferred ones if no request is crossed, or if all are. -/
theorem writes_eq_iff (h : (¬r.IsCrossed ∧ ¬s.IsCrossed) ∨ (r.IsCrossed ∧ s.IsCrossed)) :
    r.writes = s.writes ↔ r.unit = s.unit := by
  rcases h with ⟨hr, hs⟩ | ⟨hr, hs⟩
  · rw [Request.IsCrossed, not_ne_iff] at hr hs
    rw [hr, hs]
  · obtain ⟨hrk, hru⟩ := Request.isCrossed_iff.1 hr
    obtain ⟨hsk, hsu⟩ := Request.isCrossed_iff.1 hs
    simp [Request.writes, hrk, hru, hsk, hsu]

/-- A crossed request, issued behind a reparse of the unit that it prefers, cancels that job. -/
def crossedCancels (file : Path) : Log :=
  [.opened file, .issued ⟨.reparse, file, .primary, 1⟩, .issued ⟨.supportive, file, .primary, 2⟩,
    .cancelled ⟨.reparse, file, .primary, 1⟩]

theorem exists_run_crossedCancels (compiler : String) :
    ∃ w, Run (.new compiler) (crossedCancels (.ofString "/a.cpp")) w := by
  have h : Run (.new compiler) [] _ := .start
  have h := h.step (.opened (show Queue.openDocument _ (.ofString "/a.cpp") "p" [] (.ofString "/")
    = .ok _ from rfl))
  have h := h.step (.issued (show Queue.add _ (.new .reparse (.ofString "/a.cpp") .primary) = .ok _
    from rfl))
  have h := h.step (.issued (show Queue.add _ (.new .supportive (.ofString "/a.cpp") .primary) =
    .ok _ from rfl))
  have h := h.step (.cancelled rfl rfl)
  exact ⟨_, h⟩

theorem not_droppedLate_crossedCancels (file : Path) :
    ¬DroppedLate Request.writes (crossedCancels file) := by
  intro hd
  obtain ⟨e, hsup, hsub⟩ := hd _ (.cancelled ⟨.reparse, file, .primary, 1⟩)
    (by simp [crossedCancels]) rfl
  have he : e ∈ crossedCancels file := hsub.subset (List.mem_cons_of_mem _ List.mem_cons_self)
  simp only [crossedCancels, List.mem_cons, List.not_mem_nil, or_false] at he
  rcases he with rfl | rfl | rfl | rfl
  · exact hsup
  · -- A request does not stand behind itself.
    have hnum : ((crossedCancels file).filterMap Event.number?).Pairwise (· < ·) :=
      show [1, 2].Pairwise (· < ·) by decide
    have hpair := ((List.Sublist.refl [_, _]).append (List.nil_sublist [_])).trans hsub
    exact absurd (lt_of_pair_sublist hnum hpair rfl rfl) (Nat.lt_irrefl 1)
  · cases hsup.2
  · exact hsup

/-- Results come in the wrong order into the unit that a crossed request and another one write. -/
def crossedOverwrites (kind : RequestKind) (file : Path) : Log :=
  let r : Request := ⟨kind, file, .supportive, 1⟩
  let s : Request := ⟨.supportive, file, .primary, 2⟩
  let result : UpdateResult := ⟨1, [], []⟩
  [.opened file, .issued r, .issued s, .started r, .started s, .finished s result,
    .finished r result, .applied s result, .applied r result]

theorem exists_run_crossedOverwrites (compiler : String) (kind : RequestKind) :
    ∃ w, Run (.new compiler) (crossedOverwrites kind (.ofString "/a.cpp")) w := by
  have h : Run (.new compiler) [] _ := .start
  have h := h.step (.opened (show Queue.openDocument _ (.ofString "/a.cpp") "p" [] (.ofString "/")
    = .ok _ from rfl))
  have h := h.step (.issued (show Queue.add _ (.new kind (.ofString "/a.cpp") .supportive) = .ok _
    from rfl))
  have h := h.step (.issued (show Queue.add _ (.new .supportive (.ofString "/a.cpp") .primary) =
    .ok _ from rfl))
  have gives (run : PreparedRun) (hrun : run.input.revision = 1) : run.Gives ⟨1, [], []⟩ :=
    ⟨.empty, .ok ⟨[], []⟩, by rw [UpdateInput.resultOf, hrun]; rfl⟩
  -- Neither job supersedes the other, so both run, and the newer one is through first.
  cases kind <;>
  · have h := h.step (.started rfl rfl)
    have h := h.step (.started rfl rfl)
    have h := h.step (.finished (List.mem_cons_of_mem _ List.mem_cons_self) List.not_mem_nil
      (gives _ rfl))
    have h := h.step (.finished List.mem_cons_self (show (1 : Nat) ∉ [2] by decide)
      (gives _ rfl))
    have h := h.step (.applied rfl rfl rfl)
    have h := h.step (.applied rfl rfl rfl)
    exact ⟨_, h⟩

theorem not_inOrder_crossedOverwrites (kind : RequestKind) (file : Path) :
    ¬InOrder Request.writes (crossedOverwrites kind file) := by
  intro ho
  have := ho ⟨.supportive, file, .primary, 2⟩ ⟨kind, file, .supportive, 1⟩ ⟨1, [], []⟩ ⟨1, [], []⟩
    (List.drop_sublist 7 (crossedOverwrites kind file)) (.refl file) (by cases kind <;> rfl)
  exact absurd this (show ¬2 < 1 by decide)

/-- Results come in the order of their requests, and jobs are dropped only for the sake of events
    behind their requests, as far as preferred units are concerned. For the units that jobs write,
    that holds exactly if no request is crossed, or all are. -/
theorem superseded_by_preference (compiler : String) :
    (∀ log w, Run (.new compiler) log w →
      InOrder Request.unit log ∧ DroppedLate Request.unit log) ∧
    ∀ shapes : RequestKind → UnitKind → Prop,
      (∀ log w, Run (.new compiler) log w → (∀ r, .issued r ∈ log → shapes r.kind r.unit) →
        InOrder Request.writes log ∧ DroppedLate Request.writes log) ↔
      (∀ r : Request, shapes r.kind r.unit → ¬r.IsCrossed) ∨
        ∀ r : Request, shapes r.kind r.unit → r.IsCrossed := by
  refine ⟨fun log w h => ⟨h.inOrder, h.droppedLate⟩, fun shapes => ⟨fun hall => ?_, ?_⟩⟩
  · -- A crossed request and one that is not either cancel or overwrite one another.
    refine Classical.byContradiction fun hmixed => ?_
    simp only [not_or, not_forall, not_not] at hmixed
    obtain ⟨⟨s, hs, hscrossed⟩, r, hr, hrcrossed⟩ := hmixed
    obtain ⟨hsk, hsu⟩ := Request.isCrossed_iff.1 hscrossed
    rw [hsk, hsu] at hs
    cases hu : r.unit with
    | primary =>
      have hk : r.kind = .reparse := by
        cases hk : r.kind with
        | reparse => rfl
        | supportive => exact absurd (Request.isCrossed_iff.2 ⟨hk, hu⟩) hrcrossed
      rw [hk, hu] at hr
      obtain ⟨w, h⟩ := exists_run_crossedCancels compiler
      refine not_droppedLate_crossedCancels _ (hall _ _ h ?_).2
      simp [crossedCancels, hr, hs]
    | supportive =>
      rw [hu] at hr
      obtain ⟨w, h⟩ := exists_run_crossedOverwrites compiler r.kind
      refine not_inOrder_crossedOverwrites _ _ (hall _ _ h ?_).1
      simp [crossedOverwrites, hr, hs]
  · intro hcase log w h hshapes
    have hiff (r s : Request) (hr : .issued r ∈ log) (hs : .issued s ∈ log) :
        r.writes = s.writes ↔ r.unit = s.unit :=
      writes_eq_iff <| hcase.imp
        (fun hno => ⟨hno r (hshapes r hr), hno s (hshapes s hs)⟩)
        (fun hyes => ⟨hyes r (hshapes r hr), hyes s (hshapes s hs)⟩)
    refine ⟨h.inOrder.congr (fun r s hr hs => (hiff r s hr hs).1) fun r result hr => ?_,
      h.droppedLate.congr fun r s hr hs => (hiff r s hr hs).2⟩
    exact h.issued_of_mem (Queue.isFresh_new _) (.inr (.inr (List.mem_filterMap.2 ⟨_, hr, rfl⟩)))

/-- A request for the supportive unit that prefers the primary one cancels a reparse of the
    primary unit, which it does not write. -/
theorem dropped_without_successor :
    let log : Log := [.opened (.ofString "/a.cpp"),
      .issued ⟨.reparse, .ofString "/a.cpp", .primary, 1⟩,
      .issued ⟨.supportive, .ofString "/a.cpp", .primary, 2⟩,
      .cancelled ⟨.reparse, .ofString "/a.cpp", .primary, 1⟩]
    ∃ w, Run (.new "clang++") log w ∧ ¬DroppedLate Request.writes log := by
  obtain ⟨w, h⟩ := exists_run_crossedCancels "clang++"
  exact ⟨w, h, not_droppedLate_crossedCancels _⟩

end Workshop

end PrecompiledHeaders
