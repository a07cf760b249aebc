import PrecompiledHeaders.Proofs.Path.Table
import PrecompiledHeaders.Proofs.Text.Distinct
import Mathlib.Algebra.Group.Nat.Defs
import Mathlib.Data.List.Forall2

/-!
# Ids over whole runs

Whatever is asked of a store of paths, in whatever order, the ids that are given out are as good as
the normal forms of the paths (`Interner.numbers_paths`): there is one id for each normal form, ids
count the normal forms in the order in which they are first seen, and each leads back to its own.

The reason is that a store is told by the list of normal forms that were asked for. Without what
is repeated in it, that list is the list of keys in the store (`Interner.texts_after`), and an id is
a place in it. A longer list has the same places at its front (`idxOf_eraseDups_append`), so ids
stay what they are.
-/

namespace PrecompiledHeaders

/-! ### The order of first sight -/

section

variable {α : Type} [DecidableEq α] {l : List α} {a : α}

theorem length_eraseDups_le (l others : List α) :
    l.eraseDups.length ≤ (l ++ others).eraseDups.length := by
  rw [List.eraseDups_append, List.length_append]
  exact Nat.le_add_right _ _

/-- What was seen keeps its place. -/
theorem idxOf_eraseDups_append (h : a ∈ l) (others : List α) :
    (l ++ others).eraseDups.idxOf a = l.eraseDups.idxOf a := by
  rw [List.eraseDups_append, List.idxOf_append_of_mem (List.mem_eraseDups.2 h)]

/-- Places are taken one after the other. -/
theorem eraseDups_map_idxOf (l : List α) :
    (l.map l.eraseDups.idxOf).eraseDups = List.range l.eraseDups.length := by
  induction l using List.reverseRecOn with
  | nil => rfl
  | append_singleton l a ih =>
    have hold : l.map (l ++ [a]).eraseDups.idxOf = l.map l.eraseDups.idxOf :=
      List.map_congr_left fun b hb => idxOf_eraseDups_append hb [a]
    rw [List.map_append, List.map_singleton, hold, eraseDups_concat, ih]
    by_cases hseen : a ∈ l
    · rw [eraseDups_concat, if_pos hseen, if_pos (List.mem_map_of_mem hseen)]
    · -- A new place is behind all that were taken before.
      have hlast : (l ++ [a]).eraseDups.idxOf a = l.eraseDups.length := by
        rw [eraseDups_concat, if_neg hseen,
          List.idxOf_append_of_notMem (fun h => hseen (List.mem_eraseDups.1 h))]
        simp
      have hnew : l.eraseDups.length ∉ l.map l.eraseDups.idxOf := by
        intro hmem
        obtain ⟨b, hb, heq⟩ := List.mem_map.1 hmem
        have hlt := List.idxOf_lt_length_iff.2 (List.mem_eraseDups.2 hb)
        exact absurd heq (Nat.ne_of_lt hlt)
      rw [hlast, if_neg hnew, eraseDups_concat, if_neg hseen, List.length_append,
        List.length_singleton, List.range_succ]

/-- In a list that repeats nothing, the place of an element is where it stands. -/
theorem idxOf?_eq_some_iff_getElem? {α : Type} [BEq α] [LawfulBEq α] {l : List α} {a : α} {i : Nat}
    (h : l.Nodup) : l.idxOf? a = some i ↔ l[i]? = some a := by
  rw [List.idxOf?, List.findIdx?_eq_some_iff_findIdx_eq]
  constructor
  · rintro ⟨hlt, rfl⟩
    exact List.getElem?_idxOf (List.idxOf_lt_length_iff.1 hlt)
  · intro hplace
    obtain ⟨hlt, rfl⟩ := List.getElem?_eq_some_iff.1 hplace
    exact ⟨hlt, h.idxOf_getElem i hlt⟩

end

namespace Interner

variable {Store : Type}

/-! ### Runs -/

/-- What can be asked of a store of paths. -/
inductive Call
  | id (p : Path)
  | idOfText (text : String)
  | ids (paths : List Path)
  | get (p : Path)
  | path (id : PathId)
  | paths (ids : List PathId)

/-- What a store of paths answers. -/
inductive Answer
  | id (id : PathId)
  | ids (ids : List PathId)
  | get (found : Option PathId)
  | path (outcome : Except UnresolvedPath Path)
  | paths (outcome : Except UnresolvedPath (List Path))

/-- The paths that a call has numbered. -/
def Call.numbered : Call → List Path
  | id p => [p]
  | idOfText text => [.ofString text]
  | ids all => all
  | get _ | path _ | paths _ => []

/-- The ids that an answer gives out. -/
def Answer.given : Answer → List PathId
  | id one => [one]
  | ids all => all
  | get _ | path _ | paths _ => []

section

variable (interner : Interner Store)

/-- The answer to a call, and the store afterwards. -/
def answer (store : Store) : Call → Answer × Store
  | .id p => let (id, store) := interner.pathId store p; (.id id, store)
  | .idOfText text => let (id, store) := interner.pathIdOfText store text; (.id id, store)
  | .ids paths => let (ids, store) := interner.pathIds store paths; (.ids ids, store)
  | .get p => (.get (interner.pathId? store p), store)
  | .path id => (.path (interner.path store id), store)
  | .paths ids => (.paths (interner.paths store ids), store)

/-- The answers to calls, one after the other, and the store afterwards. -/
def run (store : Store) : List Call → List Answer × Store
  | [] => ([], store)
  | call :: rest =>
    let (first, store) := interner.answer store call
    let (answers, store) := run store rest
    (first :: answers, store)

/-- The store that calls leave, if no path was seen before them. -/
def after (calls : List Call) : Store := (interner.run interner.empty calls).2

/-- The paths that calls have numbered, in their order, with the ids that are given out for them,
    if no path was seen before. -/
def log (calls : List Call) : List (Path × PathId) :=
  (calls.flatMap Call.numbered).zip ((interner.run interner.empty calls).1.flatMap Answer.given)

/-- What a store says of paths that were numbered, for all that can be asked of it. -/
structure Numbers (store : Store) (log : List (Path × PathId)) : Prop where
  /-- Paths have one id just if they have one normal form. -/
  same_iff : ∀ x ∈ log, ∀ y ∈ log, x.2 = y.2 ↔ x.1.normalize = y.1.normalize
  /-- Ids count, without gaps, what is seen for the first time. -/
  dense : (log.map fun x => x.2.index).eraseDups = List.range (interner.size store)
  /-- Looking up a path finds the id that paths of its normal form have, and no other. -/
  get_iff p id : interner.pathId? store p = some id ↔
    ∃ x ∈ log, x.2 = id ∧ x.1.normalize = p.normalize
  /-- An id leads back to the normal form of its paths. -/
  path_iff id q : interner.path store id = .ok q ↔ ∃ x ∈ log, x.2 = id ∧ x.1.normalize = q
  /-- Just the ids that were not given out lead nowhere. -/
  unresolved_iff id e : interner.path store id = .error e ↔
    interner.size store ≤ id.index ∧ e = ⟨id⟩
  /-- Ids lead back to paths if each of them does. -/
  paths_iff ids found : interner.paths store ids = .ok found ↔
    List.Forall₂ (fun id q => ∃ x ∈ log, x.2 = id ∧ x.1.normalize = q) ids found
  /-- Otherwise the first id that was not given out is to blame. -/
  paths_unresolved_iff ids e : interner.paths store ids = .error e ↔
    ∃ known id rest, ids = known ++ id :: rest ∧
      (∀ other ∈ known, other.index < interner.size store) ∧
      interner.size store ≤ id.index ∧ e = ⟨id⟩

end

/-! ### Steps -/

section

variable {interner : Interner Store} {capacity : Nat} {texts : Store → List (List Char)}
  {store : Store} {seen : List Path} {p : Path} {id : PathId}

/-- The id that a path has when `seen` are the normal forms that were asked for. -/
def idIn (seen : List Path) (p : Path) : PathId := ⟨seen.eraseDups.idxOf p.normalize⟩

/-- The normal forms of paths. -/
def forms (paths : List Path) : List Path := paths.map Path.normalize

theorem idIn_append (h : p.normalize ∈ seen) (others : List Path) :
    idIn (seen ++ others) p = idIn seen p :=
  congrArg PathId.mk (idxOf_eraseDups_append h others)

theorem idxOf_map_key (paths : List Path) (q : Path) :
    (paths.map Path.key).idxOf q.key = paths.idxOf q := by
  induction paths with
  | nil => rfl
  | cons first rest ih =>
    rw [List.map_cons, List.idxOf_cons, List.idxOf_cons, ih]
    congr 1
    rw [Bool.eq_iff_iff, beq_iff_eq, beq_iff_eq, Path.key_inj]

/-- An interner numbers the key of a path by the place of its normal form. -/
theorem pathId_of_texts (h : interner.IsDense capacity texts)
    (hstore : texts store = seen.eraseDups.map Path.key)
    (hroom : (seen ++ forms [p]).eraseDups.length ≤ capacity) :
    (interner.pathId store p).1 = idIn (seen ++ forms [p]) p ∧
      texts (interner.pathId store p).2 = (seen ++ forms [p]).eraseDups.map Path.key := by
  have hmem : p.normalize.key ∈ texts store ↔ p.normalize ∈ seen := by
    rw [hstore, List.mem_map, ← List.mem_eraseDups]
    exact ⟨fun ⟨q, hq, heq⟩ => Path.key_inj.1 heq ▸ hq, fun hp => ⟨p.normalize, hp, rfl⟩⟩
  have hid : (interner.pathId store p).1 = ⟨(interner.intern store p.normalize.key).1⟩ := rfl
  have htexts : texts (interner.pathId store p).2 =
    texts (interner.intern store p.normalize.key).2 := rfl
  rw [hid, htexts]
  have hforms : forms [p] = [p.normalize] := rfl
  rw [hforms] at hroom ⊢
  by_cases hseen : p.normalize ∈ seen
  · obtain ⟨hnumber, hkept⟩ := h.seen store _ (hmem.2 hseen)
    rw [hnumber, hkept, idIn_append hseen, hstore, idxOf_map_key, eraseDups_concat, if_pos hseen]
    exact ⟨rfl, rfl⟩
  · rw [eraseDups_concat, if_neg hseen, List.length_append, List.length_singleton] at hroom
    have hlength : (texts store).length = seen.eraseDups.length := by
      rw [hstore, List.length_map]
    obtain ⟨hnumber, hadded⟩ := h.new store _ (mt hmem.1 hseen) (by omega)
    refine ⟨congrArg PathId.mk ?_, ?_⟩
    · rw [hnumber, hlength, eraseDups_concat, if_neg hseen,
        List.idxOf_append_of_notMem (fun hin => hseen (List.mem_eraseDups.1 hin))]
      simp
    · rw [hadded, hstore, eraseDups_concat, if_neg hseen, List.map_append, List.map_singleton]

theorem pathIds_of_texts (h : interner.IsDense capacity texts) (paths : List Path)
    (hstore : texts store = seen.eraseDups.map Path.key)
    (hroom : (seen ++ forms paths).eraseDups.length ≤ capacity) :
    (interner.pathIds store paths).1 = paths.map (idIn (seen ++ forms paths)) ∧
      texts (interner.pathIds store paths).2 = (seen ++ forms paths).eraseDups.map Path.key := by
  induction paths generalizing store seen with
  | nil => exact ⟨rfl, by rw [forms, List.map_nil, List.append_nil]; exact hstore⟩
  | cons p rest ih =>
    have hsplit : seen ++ forms (p :: rest) = (seen ++ forms [p]) ++ forms rest := by
      simp [forms]
    rw [hsplit] at hroom ⊢
    obtain ⟨hfirst, htexts⟩ :=
      pathId_of_texts h hstore (Nat.le_trans (length_eraseDups_le _ _) hroom)
    obtain ⟨hothers, hlast⟩ := ih htexts hroom
    refine ⟨congrArg₂ List.cons ?_ hothers, hlast⟩
    rw [idIn_append (by simp [forms])]
    exact hfirst

/-- What a call gives out and what it leaves. -/
theorem answer_of_texts (h : interner.IsDense capacity texts) (call : Call)
    (hstore : texts store = seen.eraseDups.map Path.key)
    (hroom : (seen ++ forms call.numbered).eraseDups.length ≤ capacity) :
    (interner.answer store call).1.given =
        call.numbered.map (idIn (seen ++ forms call.numbered)) ∧
      texts (interner.answer store call).2 =
        (seen ++ forms call.numbered).eraseDups.map Path.key := by
  have hlookup : texts store = (seen ++ forms []).eraseDups.map Path.key := by
    rw [forms, List.map_nil, List.append_nil]
    exact hstore
  cases call with
  | id p =>
    obtain ⟨hid, htexts⟩ := pathId_of_texts h hstore hroom
    exact ⟨congrArg (fun id => [id]) hid, htexts⟩
  | idOfText text =>
    obtain ⟨hid, htexts⟩ := pathId_of_texts h hstore hroom
    exact ⟨congrArg (fun id => [id]) hid, htexts⟩
  | ids paths => exact pathIds_of_texts h paths hstore hroom
  | get | path | paths => exact ⟨rfl, hlookup⟩

/-- What calls give out and what they leave. -/
theorem run_of_texts (h : interner.IsDense capacity texts) (calls : List Call)
    (hstore : texts store = seen.eraseDups.map Path.key)
    (hroom : (seen ++ forms (calls.flatMap Call.numbered)).eraseDups.length ≤ capacity) :
    (interner.run store calls).1.flatMap Answer.given =
        (calls.flatMap Call.numbered).map (idIn (seen ++ forms (calls.flatMap Call.numbered))) ∧
      texts (interner.run store calls).2 =
        (seen ++ forms (calls.flatMap Call.numbered)).eraseDups.map Path.key := by
  induction calls generalizing store seen with
  | nil => exact ⟨rfl, by rw [List.flatMap_nil, forms, List.map_nil, List.append_nil]; exact hstore⟩
  | cons call rest ih =>
    have hsplit : seen ++ forms ((call :: rest).flatMap Call.numbered) =
        (seen ++ forms call.numbered) ++ forms (rest.flatMap Call.numbered) := by
      simp [forms]
    rw [hsplit] at hroom ⊢
    obtain ⟨hfirst, htexts⟩ :=
      answer_of_texts h call hstore (Nat.le_trans (length_eraseDups_le _ _) hroom)
    obtain ⟨hothers, hlast⟩ := ih htexts hroom
    have hkept : call.numbered.map (idIn ((seen ++ forms call.numbered) ++
          forms (rest.flatMap Call.numbered))) =
        call.numbered.map (idIn (seen ++ forms call.numbered)) :=
      List.map_congr_left fun q hq =>
        idIn_append (List.mem_append_right _ (List.mem_map_of_mem hq)) _
    refine ⟨?_, hlast⟩
    rw [List.flatMap_cons, List.map_append, hkept, ← hfirst, ← hothers]
    exact List.flatMap_cons

/-! ### Lookups -/

theorem pathId?_of_texts (h : interner.IsDense capacity texts)
    (hstore : texts store = seen.eraseDups.map Path.key) :
    interner.pathId? store p = some id ↔ seen.eraseDups[id.index]? = some p.normalize := by
  have hnodup : (seen.eraseDups.map Path.key).Nodup :=
    List.Pairwise.map _ (fun _ _ hne heq => hne (Path.key_inj.1 heq)) (nodup_eraseDups seen)
  have hplace : interner.pathId? store p = some id ↔
      interner.get? store p.normalize.key = some id.index := by
    rw [pathId?, Option.map_eq_some_iff]
    exact ⟨fun ⟨_, hnumber, heq⟩ => heq ▸ hnumber, fun hnumber => ⟨_, hnumber, rfl⟩⟩
  rw [hplace, h.get?, hstore, idxOf?_eq_some_iff_getElem? hnodup, List.getElem?_map,
    Option.map_eq_some_iff]
  exact ⟨fun ⟨_, hq, heq⟩ => Path.key_inj.1 heq ▸ hq, fun hp => ⟨_, hp, rfl⟩⟩

theorem path_of_texts (h : interner.IsDense capacity texts)
    (hstore : texts store = seen.eraseDups.map Path.key) (id : PathId) :
    interner.path store id = match seen.eraseDups[id.index]? with
      | some q => .ok q
      | none => .error ⟨id⟩ := by
  rw [path, h.text?, hstore, List.getElem?_map]
  cases seen.eraseDups[id.index]? with
  | none => rfl
  | some q => rw [Option.map_some, Option.bind_some, Path.ofKey?_key]

theorem path_eq_ok_of_texts (h : interner.IsDense capacity texts)
    (hstore : texts store = seen.eraseDups.map Path.key) :
    interner.path store id = .ok p ↔ seen.eraseDups[id.index]? = some p := by
  rw [path_of_texts h hstore]
  cases seen.eraseDups[id.index]? <;> simp

theorem path_eq_error_of_texts (h : interner.IsDense capacity texts)
    (hstore : texts store = seen.eraseDups.map Path.key) {e : UnresolvedPath} :
    interner.path store id = .error e ↔ seen.eraseDups.length ≤ id.index ∧ e = ⟨id⟩ := by
  rw [path_of_texts h hstore]
  cases hid : seen.eraseDups[id.index]? with
  | none => simp [List.getElem?_eq_none_iff.1 hid, eq_comm]
  | some q =>
    have hlt := (List.getElem?_eq_some_iff.1 hid).1
    exact ⟨(nomatch ·), fun hout => absurd hlt (Nat.not_lt.2 hout.1)⟩

theorem paths_cons_eq_ok_iff {rest : List PathId} {found : List Path} :
    interner.paths store (id :: rest) = .ok found ↔
      ∃ first others, interner.path store id = .ok first ∧
        interner.paths store rest = .ok others ∧ found = first :: others := by
  rw [paths_cons]
  cases interner.path store id <;> cases interner.paths store rest <;>
    simp [bind, Except.bind, pure, Except.pure, eq_comm]

theorem paths_cons_eq_error_iff {rest : List PathId} {e : UnresolvedPath} :
    interner.paths store (id :: rest) = .error e ↔ interner.path store id = .error e ∨
      (∃ first, interner.path store id = .ok first) ∧ interner.paths store rest = .error e := by
  rw [paths_cons]
  cases interner.path store id <;> cases interner.paths store rest <;>
    simp [bind, Except.bind, pure, Except.pure]

/-- Ids are looked up if each of them is. -/
theorem paths_eq_ok_iff {ids : List PathId} {found : List Path} :
    interner.paths store ids = .ok found ↔
      List.Forall₂ (fun id q => interner.path store id = .ok q) ids found := by
  induction ids generalizing found with
  | nil =>
    have hnil : interner.paths store [] = .ok [] := rfl
    rw [List.forall₂_nil_left_iff, hnil, Except.ok.injEq, eq_comm]
  | cons id rest ih =>
    simp only [paths_cons_eq_ok_iff, List.forall₂_cons_left_iff, ih]

/-- The first id that leads nowhere is to blame. -/
theorem paths_eq_error_iff {ids : List PathId} {e : UnresolvedPath} :
    interner.paths store ids = .error e ↔
      ∃ known id rest, ids = known ++ id :: rest ∧
        (∀ other ∈ known, ∃ q, interner.path store other = .ok q) ∧
        interner.path store id = .error e := by
  induction ids with
  | nil => simp [paths, pure, Except.pure]
  | cons id rest ih =>
    rw [paths_cons_eq_error_iff, ih]
    constructor
    · rintro (hblame | ⟨hfirst, known, blamed, others, rfl, hknown, hblame⟩)
      · exact ⟨[], id, rest, rfl, List.forall_mem_nil _, hblame⟩
      · exact ⟨id :: known, blamed, others, rfl, List.forall_mem_cons.2 ⟨hfirst, hknown⟩, hblame⟩
    · rintro ⟨known, blamed, others, heq, hknown, hblame⟩
      rcases List.cons_eq_append_iff.1 heq with ⟨rfl, htail⟩ | ⟨known', rfl, rfl⟩
      · obtain ⟨rfl, -⟩ := List.cons.inj htail
        exact .inl hblame
      · obtain ⟨hfirst, hknown⟩ := List.forall_mem_cons.1 hknown
        exact .inr ⟨hfirst, known', blamed, others, rfl, hknown, hblame⟩

end

/-! ### What a log tells -/

/-- Paths with the ids that they have when they alone were asked for. -/
def numbering (paths : List Path) : List (Path × PathId) :=
  paths.map fun p => (p, idIn (forms paths) p)

theorem exists_mem_numbering {paths : List Path} {id : PathId} {q : Path} :
    (∃ x ∈ numbering paths, x.2 = id ∧ x.1.normalize = q) ↔
      (forms paths).eraseDups[id.index]? = some q := by
  have hmem : ∀ p ∈ paths, p.normalize ∈ (forms paths).eraseDups := fun p hp =>
    List.mem_eraseDups.2 (List.mem_map_of_mem hp)
  constructor
  · rintro ⟨x, hx, rfl, rfl⟩
    obtain ⟨p, hp, rfl⟩ := List.mem_map.1 hx
    exact List.getElem?_idxOf (hmem p hp)
  · intro hplace
    obtain ⟨p, hp, rfl⟩ := List.mem_map.1 (List.mem_eraseDups.1 (List.mem_of_getElem? hplace))
    refine ⟨_, List.mem_map_of_mem hp, congrArg PathId.mk ?_, rfl⟩
    have hindex := (idxOf?_eq_some_iff_getElem? (nodup_eraseDups _)).2 hplace
    rw [List.idxOf_eq_getD_idxOf?, hindex]
    rfl

theorem numbers_numbering {interner : Interner Store} {capacity : Nat}
    {texts : Store → List (List Char)} {store : Store} {paths : List Path}
    (h : interner.IsDense capacity texts)
    (hstore : texts store = (forms paths).eraseDups.map Path.key) :
    interner.Numbers store (numbering paths) where
  same_iff x hx y hy := by
    obtain ⟨p, hp, rfl⟩ := List.mem_map.1 hx
    obtain ⟨q, hq, rfl⟩ := List.mem_map.1 hy
    have hplaces := List.idxOf_inj (y := q.normalize)
      (List.mem_eraseDups.2 (List.mem_map_of_mem hp : p.normalize ∈ forms paths))
    exact PathId.mk.injEq _ _ ▸ hplaces
  dense := by
    rw [h.size, hstore, List.length_map, ← eraseDups_map_idxOf, numbering, forms, List.map_map,
      List.map_map]
    rfl
  get_iff p id := by rw [exists_mem_numbering, pathId?_of_texts h hstore]
  path_iff id q := by rw [exists_mem_numbering, path_eq_ok_of_texts h hstore]
  unresolved_iff id e := by rw [path_eq_error_of_texts h hstore, h.size, hstore, List.length_map]
  paths_iff ids found := by
    simp only [paths_eq_ok_iff, exists_mem_numbering, path_eq_ok_of_texts h hstore]
  paths_unresolved_iff ids e := by
    have hknown other : (∃ q, interner.path store other = .ok q) ↔
        other.index < interner.size store := by
      simp only [path_eq_ok_of_texts h hstore, h.size, hstore, List.length_map,
        List.getElem?_eq_some_iff, exists_comm, exists_eq', exists_prop, and_true]
    simp only [paths_eq_error_iff, hknown, path_eq_error_of_texts h hstore, h.size, hstore,
      List.length_map]

/-! ### Whole runs -/

theorem numbering_isPrefix (paths others : List Path) :
    numbering paths <+: numbering (paths ++ others) := by
  refine ⟨others.map fun p => (p, idIn (forms (paths ++ others)) p), ?_⟩
  rw [numbering, numbering, List.map_append, List.append_cancel_right_eq]
  refine List.map_congr_left fun p hp => congrArg (Prod.mk p) ?_
  have hsplit : forms (paths ++ others) = forms paths ++ forms others := List.map_append
  have hseen : p.normalize ∈ forms paths := List.mem_map_of_mem hp
  rw [hsplit, idIn_append hseen]

/-- What a run leaves is the list of normal forms that were asked for, by their keys, and what it
    gives out are places in this list. -/
theorem texts_after {interner : Interner Store} {capacity : Nat}
    {texts : Store → List (List Char)} (h : interner.IsDense capacity texts) (calls : List Call)
    (hroom : (forms (calls.flatMap Call.numbered)).eraseDups.length ≤ capacity) :
    (interner.run interner.empty calls).1.flatMap Answer.given =
        (calls.flatMap Call.numbered).map (idIn (forms (calls.flatMap Call.numbered))) ∧
      texts (interner.after calls) =
        (forms (calls.flatMap Call.numbered)).eraseDups.map Path.key := by
  have hempty : texts interner.empty = ([] : List Path).eraseDups.map Path.key := h.empty
  exact run_of_texts h calls hempty hroom

theorem log_eq {interner : Interner Store} {capacity : Nat} {texts : Store → List (List Char)}
    (h : interner.IsDense capacity texts) (calls : List Call)
    (hroom : (forms (calls.flatMap Call.numbered)).eraseDups.length ≤ capacity) :
    interner.log calls = numbering (calls.flatMap Call.numbered) := by
  rw [log, (texts_after h calls hroom).1, numbering, List.map_prod_left_eq_zip]

/-- Calls that number nothing leave no trace. -/
theorem run_filter (interner : Interner Store) (store : Store) (calls : List Call) :
    (interner.run store calls).2 =
      (interner.run store (calls.filter fun call => !call.numbered.isEmpty)).2 := by
  have hkept (store : Store) (call : Call) (hnone : call.numbered = []) :
      (interner.answer store call).2 = store := by
    cases call with
    | id | idOfText => cases hnone
    | ids all => rw [show all = [] from hnone]; rfl
    | get | path | paths => rfl
  induction calls generalizing store with
  | nil => rfl
  | cons call rest ih =>
    rw [List.filter_cons]
    split
    · exact ih _
    · next hnone =>
      rw [← ih]
      have hempty : call.numbered = [] := by simpa using hnone
      exact congrArg (fun store => (interner.run store rest).2) (hkept store call hempty)

/-- **Numbers for paths.** Whatever is asked of a dense interner with room for it, paths are
    numbered one-to-one, up to their normal forms, in the order of first sight. Ids never change,
    and lookups leave no trace. -/
theorem numbers_paths {interner : Interner Store} {capacity : Nat}
    {texts : Store → List (List Char)} (h : interner.IsDense capacity texts) (calls : List Call)
    (hroom : ((calls.flatMap Call.numbered).map Path.normalize).eraseDups.length ≤ capacity) :
    (interner.log calls).map Prod.fst = calls.flatMap Call.numbered ∧
      (interner.log calls).map Prod.snd =
        (interner.run interner.empty calls).1.flatMap Answer.given ∧
      interner.Numbers (interner.after calls) (interner.log calls) ∧
      (∀ earlier, earlier <+: calls → interner.log earlier <+: interner.log calls) ∧
      interner.after calls =
        interner.after (calls.filter fun call => !call.numbered.isEmpty) := by
  obtain ⟨hgiven, htexts⟩ := texts_after h calls hroom
  have hlog := log_eq h calls hroom
  refine ⟨?_, ?_, hlog ▸ numbers_numbering h htexts, ?_, run_filter interner _ calls⟩
  · rw [hlog, numbering, List.map_map]
    exact List.map_id _
  · rw [hlog, numbering, List.map_map, hgiven]
    rfl
  · rintro earlier ⟨later, rfl⟩
    rw [List.flatMap_append, List.map_append] at hroom
    rw [hlog, List.flatMap_append,
      log_eq h earlier (Nat.le_trans (length_eraseDups_le _ _) hroom)]
    exact numbering_isPrefix _ _

end Interner

/-! ### Tables -/

theorem PathTable.idxOf?_keys (t : PathTable) (text : List Char) :
    t.keys.idxOf? text = t.keys.toList.idxOf? text := by
  rw [← List.idxOf?_toArray]

/-- Path tables number in the order of first sight. -/
theorem PathTable.isDense_interner (capacity : Nat) :
    interner.IsDense capacity fun t => t.keys.toList where
  empty := rfl
  size _ := Array.length_toList.symm
  get? t text := t.idxOf?_keys text
  text? _ _ := Array.getElem?_toList.symm
  seen t text hseen := by
    have hindex : t.keys.idxOf? text = some (t.keys.toList.idxOf text) := by
      rw [idxOf?_keys, List.idxOf?, List.findIdx?_eq_some_iff_findIdx_eq]
      exact ⟨List.idxOf_lt_length_iff.2 hseen, rfl⟩
    have hintern : interner.intern t text = (t.keys.toList.idxOf text, t) := by
      simp only [interner, hindex]
    rw [hintern]
    exact ⟨rfl, rfl⟩
  new t text hnew _ := by
    have hindex : t.keys.idxOf? text = none := by
      rw [idxOf?_keys, List.idxOf?_eq_none_iff]
      exact hnew
    have hintern : interner.intern t text = (t.keys.size, ⟨t.keys.push text⟩) := by
      simp only [interner, hindex]
    rw [hintern]
    exact ⟨Array.length_toList.symm, Array.toList_push⟩

/-- Two spellings of one path, a path that is no text, and a text that looks like the key of the
    latter. -/
def PathTable.unusualCalls : List Interner.Call :=
  [.id (.ofString "/a/./b"), .get ⟨[0x2f, 0xff]⟩, .idOfText "/a/c/../b", .path ⟨1⟩,
    .ids [⟨[0x2f, 0xff]⟩, .ofString "\x002fff"], .paths [⟨1⟩, ⟨3⟩, ⟨4⟩]]

theorem PathTable.numbers_unusualCalls :
    ((unusualCalls.flatMap Interner.Call.numbered).map Path.normalize).eraseDups.length ≤ 2 ^ 32 ∧
      interner.Numbers (interner.after unusualCalls) (interner.log unusualCalls) ∧
      (interner.log unusualCalls).map (fun x => x.2.index) = [0, 0, 1, 2] := by
  have hroom : ((unusualCalls.flatMap Interner.Call.numbered).map
      Path.normalize).eraseDups.length ≤ 2 ^ 32 := by decide +kernel
  exact ⟨hroom, (Interner.numbers_paths (isDense_interner (2 ^ 32)) unusualCalls hroom).2.2.1,
    by decide +kernel⟩

end PrecompiledHeaders
