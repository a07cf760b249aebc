import PrecompiledHeaders.Job.Document
import PrecompiledHeaders.Job.Request

/-!
# What documents and issued requests show

Open documents are seen through `Documents.get?`, and the record of issued requests through
`IssuedRequests.latest?`. Each operation is described by what it does to these views, for all
files at once; how the entries are held does not matter behind this module. Files are told apart
by `Path.Same`, an equivalence.

* `Documents.get?_opened`, `Documents.get?_closed`, `Documents.get?_modify`;
* `IssuedRequests.latest?_raise`: the newest number never goes down, and only that of the unit in
  question changes.
-/

namespace PrecompiledHeaders

theorem Path.Same.refl (p : Path) : Path.Same p p := Eq.refl _

theorem Path.Same.symm {p q : Path} (h : Path.Same p q) : Path.Same q p := Eq.symm h

theorem Path.Same.trans {p q r : Path} (h : Path.Same p q) (h' : Path.Same q r) : Path.Same p r :=
  Eq.trans h h'

theorem Path.Same.congr_left {p q : Path} (h : Path.Same p q) (r : Path) :
    Path.Same p r ↔ Path.Same q r :=
  ⟨h.symm.trans, h.trans⟩

namespace Documents

variable {documents documents' : Documents} {document : Document} {file : Path}

theorem get?_congr {other : Path} (h : Path.Same file other) :
    documents.get? file = documents.get? other := by
  simp only [get?, h.congr_left]

/-- A document is found under its file. -/
theorem same_of_get? (h : documents.get? file = some document) : Path.Same file document.file := by
  simpa using List.find?_some h

theorem contains_iff : documents.contains file ↔ ∃ document, documents.get? file = some document :=
  Option.isSome_iff_exists

theorem contains_congr {other : Path} (h : Path.Same file other) :
    documents.contains file = documents.contains other := by
  rw [contains, contains, get?_congr h]

/-- A document can be opened where none is. -/
theorem not_contains_of_opened (h : documents.opened document = .ok documents') :
    documents.contains document.file = false := by
  unfold opened at h
  split at h
  · cases h
  · next hc => simpa using hc

theorem get?_opened (h : documents.opened document = .ok documents') (file : Path) :
    documents'.get? file =
      if Path.Same file document.file then some document else documents.get? file := by
  have hnone := not_contains_of_opened h
  unfold opened at h
  rw [if_neg (by simp [hnone])] at h
  cases h
  rw [contains, Option.isSome_eq_false_iff, Option.isNone_iff_eq_none] at hnone
  rw [get?, List.find?_append]
  split
  · next hs =>
    have : documents.get? file = none := (get?_congr hs).trans hnone
    rw [get?] at this
    simp [this, hs]
  · next hs => simp [get?, hs]

theorem get?_of_closed (h : documents.closed file = .ok (document, documents')) :
    documents.get? file = some document := by
  unfold closed get at h
  cases hd : documents.get? file with
  | none => rw [hd] at h; cases h
  | some found => rw [hd] at h; cases h; rfl

theorem get?_closed (h : documents.closed file = .ok (document, documents')) (other : Path) :
    documents'.get? other = if Path.Same other file then none else documents.get? other := by
  have hd := get?_of_closed h
  unfold closed get at h
  rw [hd] at h
  cases h
  rw [get?, List.find?_filter]
  split
  · next hs =>
    -- All documents of the file are left out, so none is found.
    refine List.find?_eq_none.2 fun d _ => ?_
    have := hs.congr_left d.file
    by_cases hf : Path.Same file d.file <;> simp [hf, this]
  · next hs =>
    unfold get?
    congr 1
    funext d
    by_cases ho : Path.Same other d.file
    · have : ¬Path.Same file d.file := fun hf => hs (ho.trans hf.symm)
      simp [ho, this]
    · simp [ho]

/-- A change of a document is seen under its file, and nowhere else. -/
theorem get?_modify {change : Document → Document} (hc : ∀ d, (change d).file = d.file)
    (file other : Path) :
    (documents.modify file change).get? other =
      if Path.Same other file then (documents.get? other).map change else documents.get? other := by
  -- Documents keep their files, so the search ends at the same one as before.
  have hsame (d : Document) : decide (Path.Same other
      (if Path.Same file d.file then change d else d).file) = decide (Path.Same other d.file) := by
    split <;> simp [hc]
  rw [get?, modify, List.find?_map]
  simp only [Function.comp_def, hsame]
  change (documents.get? other).map _ = _
  cases hd : documents.get? other with
  | none => simp
  | some d =>
    have hs := (same_of_get? hd)
    have : Path.Same file d.file ↔ Path.Same other file :=
      ⟨fun h => hs.trans h.symm, fun h => h.symm.trans hs⟩
    by_cases ho : Path.Same other file <;> simp [this, ho]

theorem contains_modify {change : Document → Document} (hc : ∀ d, (change d).file = d.file)
    (file other : Path) :
    (documents.modify file change).contains other = documents.contains other := by
  rw [contains, get?_modify hc]
  split <;> simp [contains]

end Documents

namespace Document

theorem file_incorporate (document : Document) (unit : UnitKind) (result : UpdateResult) :
    (document.incorporate unit result).file = document.file := by
  cases unit <;> rfl

theorem file_update (document : Document) (arguments : Option (List String)) :
    (document.update arguments).file = document.file := rfl

/-- The results of the two units are held apart. -/
theorem result?_incorporate (document : Document) (unit other : UnitKind)
    (result : UpdateResult) :
    (document.incorporate unit result).result? other =
      if other = unit then some result else document.result? other := by
  cases unit <;> cases other <;> rfl

theorem result?_update (document : Document) (arguments : Option (List String))
    (unit : UnitKind) : (document.update arguments).result? unit = document.result? unit := by
  cases unit <;> rfl

end Document

namespace IssuedRequests

variable {issued : IssuedRequests} {file : Path} {unit : UnitKind}

theorem isAbout_congr {file' : Path} {unit' : UnitKind} (hf : Path.Same file' file)
    (hu : unit' = unit) (entry : Issued) : isAbout file' unit' entry = isAbout file unit entry := by
  simp [isAbout, hf.congr_left, hu]

theorem latest?_congr {file' : Path} {unit' : UnitKind} (hf : Path.Same file' file)
    (hu : unit' = unit) : issued.latest? file' unit' = issued.latest? file unit := by
  rw [latest?, latest?, funext (isAbout_congr hf hu)]

theorem latest?_raise (file file' : Path) (unit unit' : UnitKind) (number : Nat) :
    (issued.raise file unit number).latest? file' unit' =
      if Path.Same file' file ∧ unit' = unit then
        some ((issued.latest? file' unit').elim number (max · number))
      else issued.latest? file' unit' := by
  unfold raise
  split
  · next hnone =>
    rw [latest?, List.find?_append]
    split
    · next hs =>
      rw [← latest?_congr hs.1 hs.2] at hnone
      have : issued.entries.find? (isAbout file' unit') = none := by simpa [latest?] using hnone
      rw [this, hnone]
      simp [isAbout, hs.1, hs.2]
    · next hs => simp [latest?, isAbout, hs]
  · next old hold =>
    -- Raising changes neither the file nor the unit of an entry.
    have hpres (entry : Issued) : isAbout file' unit' (if isAbout file unit entry then
        { entry with latest := max entry.latest number } else entry) =
        isAbout file' unit' entry := by
      split <;> rfl
    rw [latest?, List.find?_map]
    simp only [Function.comp_def, hpres]
    change ((issued.entries.find? (isAbout file' unit')).map _).map _ = _
    split
    · next hs =>
      rw [latest?_congr hs.1 hs.2, funext (isAbout_congr hs.1 hs.2), hold]
      obtain ⟨entry, hfind, rfl⟩ := Option.map_eq_some_iff.1 hold
      have := List.find?_some hfind
      simp [hfind, this]
    · next hs =>
      rw [latest?]
      cases hfind : issued.entries.find? (isAbout file' unit') with
      | none => rfl
      | some entry =>
        have habout := List.find?_some hfind
        have : isAbout file unit entry = false := by
          refine Bool.eq_false_iff.2 fun h => hs ?_
          simp only [isAbout, decide_eq_true_eq] at h habout
          exact ⟨habout.1.trans h.1.symm, habout.2.trans h.2.symm⟩
        simp [this]

/-- Retiring concerns both units. -/
theorem latest?_retire (file file' : Path) (unit : UnitKind) (number : Nat) :
    (issued.retire file number).latest? file' unit =
      if Path.Same file' file then some ((issued.latest? file' unit).elim number (max · number))
      else issued.latest? file' unit := by
  rw [retire]
  cases unit <;> simp [latest?_raise]

end IssuedRequests

end PrecompiledHeaders
