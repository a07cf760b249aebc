import PrecompiledHeaders.Path.Table
import PrecompiledHeaders.Proofs.Path.Absolute
import PrecompiledHeaders.Proofs.Path.Key

/-!
# Ids of paths

A table that sees a path gives it an id and keeps the ids it has given before
(`PathTable.get?_id`). So tables grow: `t ≤ t'` says that `t'` has all ids of `t`. One id belongs to
the paths of one normal form (`PathTable.normalize_eq_of_get?`), which is the path that the id
stands for (`PathTable.path_of_get?`).
-/

namespace PrecompiledHeaders

/-- Ids are looked up one after the other. -/
theorem Interner.paths_cons {Store : Type} (interner : Interner Store) (store : Store) (id : PathId)
    (ids : List PathId) :
    interner.paths store (id :: ids) = do
      let first ← interner.path store id
      let others ← interner.paths store ids
      return first :: others :=
  List.mapM_cons

namespace PathTable

variable {t t' t'' : PathTable} {p q : Path} {id : PathId}

/-- A table grows if it keeps the ids it has given. -/
instance : LE PathTable := ⟨fun t t' => ∀ p id, t.get? p = some id → t'.get? p = some id⟩

theorem le_refl (t : PathTable) : t ≤ t := fun _ _ h => h

theorem le_trans (h : t ≤ t') (h' : t' ≤ t'') : t ≤ t'' := fun p id hid => h' p id (h p id hid)

theorem get?_eq (t : PathTable) (p : Path) :
    t.get? p = (t.keys.toList.idxOf? p.normalize.key).map PathId.mk := by
  rw [← List.idxOf?_toArray]
  rfl

theorem get?_empty (p : Path) : empty.get? p = none := by
  rw [get?_eq]
  rfl

theorem resolve_cons (t : PathTable) (id : PathId) (ids : List PathId) :
    t.resolve (id :: ids) = do
      let first ← t.path id
      let others ← t.resolve ids
      return first :: others :=
  interner.paths_cons t id ids

theorem get?_congr (t : PathTable) (h : p.normalize = q.normalize) : t.get? p = t.get? q := by
  rw [get?_eq, h, get?_eq]

/-- The place of an id holds the key of its path. -/
theorem getElem?_of_get? (h : t.get? p = some id) : t.keys[id.index]? = some p.normalize.key := by
  rw [get?_eq] at h
  obtain ⟨index, hindex, rfl⟩ := Option.map_eq_some_iff.1 h
  obtain ⟨hlt, heq, -⟩ := List.idxOf?_eq_some_iff.1 hindex
  rw [← Array.getElem?_toList, List.getElem?_eq_getElem hlt, heq]

theorem path_of_get? (h : t.get? p = some id) : t.path id = .ok p.normalize := by
  have hkey : interner.text? t id.index = some p.normalize.key := getElem?_of_get? h
  rw [path, Interner.path, hkey, Option.bind_some, Path.ofKey?_key]

/-- Paths with one id have one normal form. -/
theorem normalize_eq_of_get? (hp : t.get? p = some id) (hq : t.get? q = some id) :
    p.normalize = q.normalize :=
  Except.ok.inj ((path_of_get? hp).symm.trans (path_of_get? hq))

theorem id_of_seen (h : t.get? p = some id) : t.id p = (id, t) := by
  obtain ⟨number, hnumber, rfl⟩ := Option.map_eq_some_iff.1 h
  have hindex : t.keys.idxOf? p.normalize.key = some number := hnumber
  simp only [PathTable.id, Interner.pathId, interner, hindex]

theorem id_of_new (h : t.get? p = none) :
    t.id p = (⟨t.size⟩, ⟨t.keys.push p.normalize.key⟩) := by
  have hindex : t.keys.idxOf? p.normalize.key = none := Option.map_eq_none_iff.1 h
  simp only [PathTable.id, Interner.pathId, interner, hindex]
  rfl

/-- What a table says after it has seen a path. -/
theorem get?_id (t : PathTable) (p q : Path) : (t.id p).2.get? q =
    if q.normalize = p.normalize then some (t.id p).1 else t.get? q := by
  cases hp : t.get? p with
  | some known =>
    rw [id_of_seen hp]
    split
    · next h => rw [get?_congr t h, hp]
    · rfl
  | none =>
    -- The new key stands behind all others, so the first place of another one stays.
    have hnew : t.keys.toList.idxOf? p.normalize.key = none := by simpa [get?_eq] using hp
    rw [id_of_new hp]
    simp only [get?_eq, Array.toList_push, List.idxOf?, List.findIdx?_append]
    split
    · next h =>
      rw [h, show List.findIdx? (· == p.normalize.key) t.keys.toList = none from hnew]
      simp [size, interner]
    · next h =>
      have hne : (p.normalize.key == q.normalize.key) = false := by
        simpa [Path.key_inj] using Ne.symm h
      simp [hne]

theorem get?_id_self (t : PathTable) (p : Path) : (t.id p).2.get? p = some (t.id p).1 := by
  rw [get?_id, if_pos rfl]

theorem le_id (t : PathTable) (p : Path) : t ≤ (t.id p).2 := by
  intro q id h
  rw [get?_id]
  split
  · next heq =>
    rw [get?_congr t heq] at h
    rw [id_of_seen h]
  · exact h

theorem le_ids (t : PathTable) (paths : List Path) : t ≤ (t.ids paths).2 := by
  induction paths generalizing t with
  | nil => exact le_refl t
  | cons p rest ih => exact le_trans (t.le_id p) (ih _)

theorem ids_append (t : PathTable) (paths others : List Path) :
    t.ids (paths ++ others) =
      ((t.ids paths).1 ++ ((t.ids paths).2.ids others).1, ((t.ids paths).2.ids others).2) := by
  induction paths generalizing t with
  | nil => rfl
  | cons p rest ih =>
    have hcons (paths : List Path) : t.ids (p :: paths) =
        ((t.id p).1 :: ((t.id p).2.ids paths).1, ((t.id p).2.ids paths).2) := rfl
    rw [List.cons_append, hcons, hcons, ih]
    rfl

/-- Paths have the ids that they are given. -/
theorem map_get?_ids (t : PathTable) (paths : List Path) :
    paths.map (t.ids paths).2.get? = (t.ids paths).1.map some := by
  induction paths generalizing t with
  | nil => rfl
  | cons p rest ih =>
    have hfirst : (t.ids (p :: rest)).2.get? p = some (t.id p).1 :=
      (t.id p).2.le_ids rest p _ (t.get?_id_self p)
    rw [List.map_cons, hfirst]
    exact congrArg _ (ih _)

/-- An id that is given is the id of a path that it is given to. -/
theorem exists_get?_of_mem_ids {paths : List Path} (h : id ∈ (t.ids paths).1) :
    ∃ p ∈ paths, (t.ids paths).2.get? p = some id := by
  have hmem : some id ∈ paths.map (t.ids paths).2.get? :=
    t.map_get?_ids paths ▸ List.mem_map_of_mem h
  exact List.mem_map.1 hmem

/-- What ids are looked up as is as the paths that were given them. -/
theorem exists_resolve_of_forall {P : Path → Prop} {ids : List PathId}
    (hids : ∀ id ∈ ids, ∃ p : Path, t.get? p = some id ∧ P p.normalize) :
    ∃ paths, t.resolve ids = .ok paths ∧ ∀ p ∈ paths, P p := by
  induction ids with
  | nil => exact ⟨[], rfl, List.forall_mem_nil _⟩
  | cons id ids ih =>
    obtain ⟨p, hp, hprop⟩ := hids id List.mem_cons_self
    obtain ⟨paths, hpaths, hall⟩ := ih fun other ho => hids other (List.mem_cons_of_mem _ ho)
    refine ⟨p.normalize :: paths, ?_, List.forall_mem_cons.2 ⟨hprop, hall⟩⟩
    rw [resolve_cons, path_of_get? hp, hpaths]
    rfl

/-- Ids that a table has given can be looked up. -/
theorem exists_resolve {ids : List PathId} (hids : ∀ id ∈ ids, ∃ p : Path, t.get? p = some id) :
    ∃ paths, t.resolve ids = .ok paths := by
  obtain ⟨paths, hpaths, -⟩ := exists_resolve_of_forall (P := fun _ => True) fun id hid =>
    have ⟨p, hp⟩ := hids id hid
    ⟨p, hp, trivial⟩
  exact ⟨paths, hpaths⟩

/-- Ids that a table has given are looked up in a larger one with the same result. -/
theorem resolve_of_le (hle : t ≤ t') {ids : List PathId}
    (hids : ∀ id ∈ ids, ∃ p : Path, t.get? p = some id) : t'.resolve ids = t.resolve ids := by
  induction ids with
  | nil => rfl
  | cons id ids ih =>
    obtain ⟨p, hp⟩ := hids id List.mem_cons_self
    have hrest : t'.resolve ids = t.resolve ids :=
      ih fun other ho => hids other (List.mem_cons_of_mem _ ho)
    rw [resolve_cons, resolve_cons, path_of_get? (hle p id hp), path_of_get? hp, hrest]

end PathTable

end PrecompiledHeaders
