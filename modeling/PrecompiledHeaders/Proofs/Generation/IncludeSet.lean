import PrecompiledHeaders.Generation.Generator
import PrecompiledHeaders.Proofs.Path.Table
import PrecompiledHeaders.Proofs.Text.Distinct
import Std.Data.HashSet.Lemmas
import Mathlib.Tactic.Tauto

/-!
# Sets of headers

An include set is coherent if its two halves hold the same ids, each once
(`IncludeSet.IsCoherent`), and sound with respect to a table if its ids are ids of absolute paths
there (`IncludeSet.IsSound`). The headers of a sound set (`IncludeSet.Holds`) stay the same when
the table grows (`IncludeSet.IsSound.holds_iff_of_le`), and can be looked up
(`IncludeSet.IsSound.exists_resolve`).
-/

namespace PrecompiledHeaders.IncludeSet

variable {s s' : IncludeSet} {t t' : PathTable} {p h : Path} {id id' : PathId}

/-! ### Coherence -/

/-- Whether the order and the members hold the same ids, each once. -/
structure IsCoherent (s : IncludeSet) : Prop where
  nodup : s.order.Nodup
  contains_iff : ∀ id, s.contains id = true ↔ id ∈ s.order

theorem IsCoherent.empty : IsCoherent empty :=
  ⟨List.nodup_nil, fun id => by simp [contains, IncludeSet.empty]⟩

theorem contains_insert (s : IncludeSet) (id id' : PathId) :
    (s.insert id).contains id' = true ↔ id' = id ∨ s.contains id' = true := by
  unfold insert
  split
  · next hin => exact ⟨.inr, fun h => h.elim (fun heq => heq ▸ hin) fun h => h⟩
  · simp only [contains, Std.HashSet.contains_insert, Bool.or_eq_true, beq_iff_eq]
    exact or_congr_left eq_comm

theorem mem_order_insert (hs : s.IsCoherent) :
    id' ∈ (s.insert id).order ↔ id' = id ∨ id' ∈ s.order := by
  unfold insert
  split
  · next hin =>
    exact ⟨.inr, fun h => h.elim (fun heq => heq ▸ (hs.contains_iff id).1 hin) fun h => h⟩
  · simp [or_comm]

theorem eq_or_mem_of_mem_insert (h : id' ∈ (s.insert id).order) : id' = id ∨ id' ∈ s.order := by
  unfold insert at h
  split at h
  · exact .inr h
  · exact (List.mem_append.1 h).symm.imp_left List.mem_singleton.1

theorem mem_or_mem_of_mem_foldl_insert {ids : List PathId}
    (h : id ∈ (ids.foldl IncludeSet.insert s).order) : id ∈ ids ∨ id ∈ s.order := by
  induction ids generalizing s with
  | nil => exact .inr h
  | cons first rest ih =>
    rcases ih h with h | h
    · exact .inl (List.mem_cons_of_mem _ h)
    · rcases eq_or_mem_of_mem_insert h with rfl | h
      · exact .inl List.mem_cons_self
      · exact .inr h

theorem IsCoherent.insert (hs : s.IsCoherent) (id : PathId) : (s.insert id).IsCoherent := by
  refine ⟨?_, fun id' => ?_⟩
  · unfold IncludeSet.insert
    split
    · exact hs.nodup
    · next hout =>
      refine List.nodup_append.2 ⟨hs.nodup, by simp, fun a ha b hb => ?_⟩
      rintro rfl
      rw [List.mem_singleton.1 hb] at ha
      exact hout ((hs.contains_iff id).2 ha)
  · rw [contains_insert, mem_order_insert hs, hs.contains_iff]

theorem foldl_insert (hs : s.IsCoherent) (ids : List PathId) :
    (ids.foldl IncludeSet.insert s).IsCoherent ∧
      ∀ id, id ∈ (ids.foldl IncludeSet.insert s).order ↔ id ∈ ids ∨ id ∈ s.order := by
  induction ids generalizing s with
  | nil => exact ⟨hs, fun id => by simp⟩
  | cons first rest ih =>
    obtain ⟨hcoherent, hmem⟩ := ih (hs.insert first)
    refine ⟨hcoherent, fun id => ?_⟩
    rw [List.foldl_cons, hmem, mem_order_insert hs, List.mem_cons]
    tauto

theorem IsCoherent.ofList (ids : List PathId) : (ofList ids).IsCoherent :=
  (foldl_insert .empty ids).1

theorem mem_order_ofList (ids : List PathId) : id ∈ (ofList ids).order ↔ id ∈ ids := by
  rw [ofList, (foldl_insert .empty ids).2]
  simp [IncludeSet.empty]

/-- The ids of a list stand where they come first. -/
theorem order_ofList (ids : List PathId) : (ofList ids).order = ids.eraseDups := by
  induction ids using List.reverseRecOn with
  | nil => rfl
  | append_singleton ids id ih =>
    have hcontains : (ofList ids).contains id = true ↔ id ∈ ids := by
      rw [(IsCoherent.ofList ids).contains_iff, mem_order_ofList]
    have hinsert : ofList (ids ++ [id]) = (ofList ids).insert id := List.foldl_concat ..
    rw [hinsert, insert, eraseDups_concat]
    by_cases hseen : id ∈ ids
    · rw [if_pos hseen, if_pos (hcontains.2 hseen), ih]
    · rw [if_neg hseen, if_neg (mt hcontains.1 hseen), ih]

/-- What is in both sets stands in the order of the first. -/
theorem order_intersect (hs : s.IsCoherent) (s' : IncludeSet) :
    (s.intersect s').order = s.order.filter s'.contains := by
  rw [intersect, order_ofList, eraseDups_of_nodup (hs.nodup.filter _)]

theorem mem_order_intersect (hs' : s'.IsCoherent) :
    id ∈ (s.intersect s').order ↔ id ∈ s.order ∧ id ∈ s'.order := by
  rw [intersect, mem_order_ofList, List.mem_filter, hs'.contains_iff]

/-! ### Headers -/

/-- Whether the id of a header is in a set. -/
def Holds (s : IncludeSet) (t : PathTable) (h : Path) : Prop :=
  ∃ id, t.get? h = some id ∧ s.contains id = true

/-- Whether a set is coherent and its ids are ids of absolute paths. -/
structure IsSound (s : IncludeSet) (t : PathTable) : Prop where
  coherent : s.IsCoherent
  known : ∀ id ∈ s.order, ∃ p : Path, p.isAbsolute = true ∧ t.get? p = some id

theorem not_holds_empty : ¬empty.Holds t h := by
  rintro ⟨id, -, hin⟩
  exact List.not_mem_nil ((IsCoherent.empty.contains_iff id).1 hin)

namespace IsSound

theorem empty (t : PathTable) : IsSound empty t := ⟨.empty, fun _ h => absurd h List.not_mem_nil⟩

theorem mono (hs : s.IsSound t) (ht : t ≤ t') : s.IsSound t' :=
  ⟨hs.coherent, fun id hid => (hs.known id hid).imp fun p hp => ⟨hp.1, ht p id hp.2⟩⟩

theorem insert (hs : s.IsSound t) (hp : p.isAbsolute) :
    (s.insert (t.id p).1).IsSound (t.id p).2 := by
  refine ⟨hs.coherent.insert _, fun id hid => ?_⟩
  rcases (mem_order_insert hs.coherent).1 hid with rfl | hid
  · exact ⟨p, hp, t.get?_id_self p⟩
  · exact (hs.mono (t.le_id p)).known id hid

theorem intersect (hs : s.IsSound t) (hs' : s'.IsSound t) : (s.intersect s').IsSound t :=
  ⟨.ofList _, fun id hid => hs.known id ((mem_order_intersect hs'.coherent).1 hid).1⟩

/-- A set holds the same headers when the table grows. -/
theorem holds_iff_of_le (hs : s.IsSound t) (ht : t ≤ t') : s.Holds t' h ↔ s.Holds t h := by
  constructor
  · rintro ⟨id, hget, hin⟩
    -- The id was given before, and so to this header.
    obtain ⟨p, -, hp⟩ := hs.known id ((hs.coherent.contains_iff id).1 hin)
    have heq : p.normalize = h.normalize := PathTable.normalize_eq_of_get? (ht p id hp) hget
    exact ⟨id, (t.get?_congr heq).symm.trans hp, hin⟩
  · rintro ⟨id, hget, hin⟩
    exact ⟨id, ht h id hget, hin⟩

theorem holds_insert_iff (hs : s.IsSound t) (p h : Path) :
    (s.insert (t.id p).1).Holds (t.id p).2 h ↔ h.normalize = p.normalize ∨ s.Holds t h := by
  -- Both sides speak of the table that has seen the path.
  rw [← hs.holds_iff_of_le (t.le_id p)]
  constructor
  · rintro ⟨id, hget, hin⟩
    rcases (contains_insert s _ _).1 hin with rfl | hin
    · exact .inl (PathTable.normalize_eq_of_get? hget (t.get?_id_self p))
    · exact .inr ⟨id, hget, hin⟩
  · rintro (heq | ⟨id, hget, hin⟩)
    · refine ⟨(t.id p).1, ?_, (contains_insert s _ _).2 (.inl rfl)⟩
      rw [PathTable.get?_id, if_pos heq]
    · exact ⟨id, hget, (contains_insert s _ _).2 (.inr hin)⟩

end IsSound

theorem holds_intersect_iff (hs : s.IsCoherent) (hs' : s'.IsCoherent) :
    (s.intersect s').Holds t h ↔ s.Holds t h ∧ s'.Holds t h := by
  have hiff (id : PathId) : (s.intersect s').contains id = true ↔
      s.contains id = true ∧ s'.contains id = true := by
    have hboth : (s.intersect s').IsCoherent := .ofList _
    rw [hboth.contains_iff, mem_order_intersect hs', hs.contains_iff, hs'.contains_iff]
  constructor
  · rintro ⟨id, hget, hin⟩
    exact ⟨⟨id, hget, ((hiff id).1 hin).1⟩, ⟨id, hget, ((hiff id).1 hin).2⟩⟩
  · rintro ⟨⟨id, hget, hin⟩, ⟨id', hget', hin'⟩⟩
    cases hget.symm.trans hget'
    exact ⟨id, hget, (hiff id).2 ⟨hin, hin'⟩⟩

/-! ### Headers in all of some sets -/

theorem IsSound.foldl_intersect (hs : s.IsSound t) {sets : List IncludeSet}
    (hsets : ∀ s ∈ sets, s.IsSound t) : (sets.foldl IncludeSet.intersect s).IsSound t ∧
      ∀ h, (sets.foldl IncludeSet.intersect s).Holds t h ↔
        s.Holds t h ∧ ∀ s' ∈ sets, s'.Holds t h := by
  induction sets generalizing s with
  | nil => exact ⟨hs, fun h => by simp⟩
  | cons first rest ih =>
    have hfirst := hsets first List.mem_cons_self
    obtain ⟨hsound, hholds⟩ := ih (hs.intersect hfirst) fun s hmem =>
      hsets s (List.mem_cons_of_mem _ hmem)
    refine ⟨hsound, fun h => ?_⟩
    rw [List.foldl_cons, hholds, holds_intersect_iff hs.coherent hfirst.coherent,
      List.forall_mem_cons, and_assoc]

theorem IsSound.shared {sets : List IncludeSet} (hsets : ∀ s ∈ sets, s.IsSound t) :
    (Generator.shared sets).IsSound t := by
  cases sets with
  | nil => exact .empty t
  | cons first rest =>
    exact ((hsets first List.mem_cons_self).foldl_intersect fun s hmem =>
      hsets s (List.mem_cons_of_mem _ hmem)).1

theorem holds_shared_iff {sets : List IncludeSet} (hsets : ∀ s ∈ sets, s.IsSound t) :
    (Generator.shared sets).Holds t h ↔ sets ≠ [] ∧ ∀ s ∈ sets, s.Holds t h := by
  cases sets with
  | nil => exact iff_of_false not_holds_empty fun hne => hne.1 rfl
  | cons first rest =>
    rw [Generator.shared, ((hsets first List.mem_cons_self).foldl_intersect fun s hmem =>
      hsets s (List.mem_cons_of_mem _ hmem)).2, List.forall_mem_cons]
    exact (and_iff_right (List.cons_ne_nil _ _)).symm

/-! ### Ids of a table -/

/-- Whether the ids of a set are ids of a table, of whatever paths. -/
def IsKnown (s : IncludeSet) (t : PathTable) : Prop :=
  ∀ id ∈ s.order, ∃ p : Path, t.get? p = some id

namespace IsKnown

theorem empty (t : PathTable) : IsKnown empty t := fun _ h => absurd h List.not_mem_nil

theorem mono (hs : s.IsKnown t) (ht : t ≤ t') : s.IsKnown t' :=
  fun id hid => (hs id hid).imp fun p hp => ht p id hp

theorem ids (hs : s.IsKnown t) (paths : List Path) :
    ((t.ids paths).1.foldl IncludeSet.insert s).IsKnown (t.ids paths).2 := by
  intro id hid
  rcases mem_or_mem_of_mem_foldl_insert hid with hid | hid
  · obtain ⟨p, -, hp⟩ := PathTable.exists_get?_of_mem_ids hid
    exact ⟨p, hp⟩
  · exact hs.mono (t.le_ids paths) id hid

theorem intersect (hs : s.IsKnown t) (s' : IncludeSet) : (s.intersect s').IsKnown t :=
  fun id hid => hs id (List.mem_filter.1 ((mem_order_ofList _).1 hid)).1

theorem shared {sets : List IncludeSet} (hsets : ∀ s ∈ sets, s.IsKnown t) :
    (Generator.shared sets).IsKnown t := by
  cases sets with
  | nil => exact empty t
  | cons first rest =>
    have hfold (s : IncludeSet) (hs : s.IsKnown t) :
        (rest.foldl IncludeSet.intersect s).IsKnown t := by
      clear hsets
      induction rest generalizing s with
      | nil => exact hs
      | cons second rest ih => exact ih _ (hs.intersect second)
    exact hfold first (hsets first List.mem_cons_self)

end IsKnown

/-! ### Looking up -/

theorem resolve_eq {ids : List PathId}
    (hids : ∀ id ∈ ids, ∃ p : Path, p.isAbsolute = true ∧ t.get? p = some id) :
    ∃ paths, t.resolve ids = .ok paths ∧ (∀ p ∈ paths, p.IsNormal) ∧
      ∀ p, p.IsNormal → (p ∈ paths ↔ ∃ id ∈ ids, t.get? p = some id) := by
  induction ids with
  | nil => exact ⟨[], rfl, fun p hp => absurd hp List.not_mem_nil, fun p _ => by simp⟩
  | cons first rest ih =>
    obtain ⟨q, habs, hq⟩ := hids first List.mem_cons_self
    obtain ⟨paths, hresolve, hnormal, hmem⟩ := ih fun id hid => hids id (List.mem_cons_of_mem _ hid)
    have hfirst : t.resolve (first :: rest) = .ok (q.normalize :: paths) := by
      rw [PathTable.resolve_cons, PathTable.path_of_get? hq, hresolve]
      rfl
    -- An id stands for one normal path, and a normal path has one id.
    have hiff (p : Path) (hp : p.IsNormal) : p = q.normalize ↔ t.get? p = some first := by
      constructor
      · intro heq
        rw [← hq]
        exact t.get?_congr (hp.normalize_eq.trans heq)
      · intro hget
        rw [← PathTable.normalize_eq_of_get? hget hq, hp.normalize_eq]
    refine ⟨q.normalize :: paths, hfirst, fun p hp => ?_, fun p hp => ?_⟩
    · rcases List.mem_cons.1 hp with rfl | hp
      · exact Path.isNormal_normalize habs
      · exact hnormal p hp
    · rw [List.mem_cons, hmem p hp, hiff p hp]
      simp

/-- A sound set can be looked up, and gives the headers that it holds. -/
theorem IsSound.exists_resolve (hs : s.IsSound t) :
    ∃ paths, t.resolve s.order = .ok paths ∧ (∀ p ∈ paths, p.IsNormal) ∧
      ∀ p, p.IsNormal → (p ∈ paths ↔ s.Holds t p) := by
  obtain ⟨paths, hresolve, hnormal, hmem⟩ := resolve_eq hs.known
  refine ⟨paths, hresolve, hnormal, fun p hp => (hmem p hp).trans ?_⟩
  constructor
  · rintro ⟨id, hin, hget⟩
    exact ⟨id, hget, (hs.coherent.contains_iff id).2 hin⟩
  · rintro ⟨id, hget, hin⟩
    exact ⟨id, (hs.coherent.contains_iff id).1 hin, hget⟩

end PrecompiledHeaders.IncludeSet
