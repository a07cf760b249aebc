import PrecompiledHeaders.Proofs.FileTree.Steps

/-!
# Locations of paths

The location that a path leads to is found by looking at everything on its way
(`FileTree.resolve`). What is looked at is given by its whole path, so that must not be too long
(`Location.IsShort`). But for that, locations are found where paths lead.

`FileTree.Resolves` says this step by step, as `FileTree.Goes` says how paths are followed, and
locations are found like this (`FileTree.resolve_eq_ok_iff`). A way that resolves is a way that leads
to an entry (`FileTree.Resolves.goes`), and the other way round if all that a tree has is near enough
to the root (`FileTree.IsShallow`). What stands too deep has an identity for each of its paths
(`FileTree.identity_of_deep`).
-/

namespace PrecompiledHeaders

/-- Whether the path of a location is not too long. -/
def Location.IsShort (location : Location) : Prop :=
  location.path.bytes.length < FileTree.pathLimit

/-- Whether the path of a location is not too long, even with a slash behind it. -/
def Location.HasRoom (location : Location) : Prop :=
  location.path.bytes.length + 1 < FileTree.pathLimit

instance (location : Location) : Decidable location.HasRoom :=
  inferInstanceAs (Decidable (_ < _))

theorem Location.HasRoom.isShort {location : Location} (h : location.HasRoom) : location.IsShort :=
  Nat.lt_of_succ_lt h

theorem Location.isShort_nil : Location.IsShort [] := by
  rw [IsShort]
  decide

/-- A path gets longer with each name. -/
theorem Location.IsShort.tail {location : Location} (h : location.IsShort) :
    Location.IsShort location.tail := by
  cases location with
  | nil => exact h
  | cons name above =>
    cases above with
    | nil => exact isShort_nil
    | cons next above =>
      have hlength : (Location.path (name :: next :: above)).bytes.length =
          (Location.path (next :: above)).bytes.length + (name.length + 1) := by
        simp only [path_cons, List.reverse_cons, List.flatMap_append, List.flatMap_singleton,
          List.length_append, List.length_cons]
      rw [IsShort, hlength] at h
      exact Nat.lt_of_le_of_lt (Nat.le_add_right _ _) h

namespace FileTree

open PrecompiledHeaders.Path

variable {tree : FileTree} {links : Nat} {location found found' : Location} {name : Bytes}
  {names rest : List Bytes} {entry : Entry} {p canon : Path}

/-! ### What asks for a directory -/

theorem asksForDirectory_cons (htelling : ¬(name = [] ∨ name = dot)) (hparent : name ≠ dotDot) :
    asksForDirectory (name :: rest) = false := by
  rw [asksForDirectory, List.dropWhile_cons_of_neg (by simpa using htelling)]
  exact decide_eq_false hparent

/-! ### Looking at an entry -/

theorem look_eq_ok_iff (htelling : ¬(name = [] ∨ name = dot)) (hparent : name ≠ dotDot) :
    tree.look location name = .ok entry ↔ Location.IsShort (name :: location) ∧
      tree.Enters location name ∧ tree.entryAt (name :: location) = some entry := by
  unfold look
  constructor
  · intro h
    split at h
    · cases h
    next hlength =>
    split at h
    · cases h
    next hdirectory =>
    split at h
    · cases h
    next hname =>
    split at h
    · cases h
    · next hentry =>
      cases h
      exact ⟨Nat.not_le.1 hlength,
        ⟨Decidable.of_not_not hdirectory, htelling, hparent, Nat.not_lt.1 hname⟩, hentry⟩
  · rintro ⟨hshort, henters, hentry⟩
    rw [if_neg (Nat.not_le.2 hshort), if_neg (not_not_intro henters.directory),
      if_neg (Nat.not_lt.2 henters.length), hentry]

/-! ### Resolving -/

/-- Whether the location that names lead to from another is found, over at most the given number of
    links. -/
inductive Resolves (tree : FileTree) : Nat → Location → List Bytes → Location → Prop
  /-- The end of the way. -/
  | here (links : Nat) (location : Location) : Resolves tree links location [] location
  /-- A piece that says nothing. -/
  | stay {links : Nat} {location found : Location} {name : Bytes} {rest : List Bytes} :
    tree.entryAt location = some .directory → name = [] ∨ name = dot →
    Resolves tree links location rest found → Resolves tree links location (name :: rest) found
  /-- A piece that leads up. -/
  | up {links : Nat} {location found : Location} {rest : List Bytes} :
    tree.entryAt location = some .directory → Resolves tree links location.tail rest found →
    Resolves tree links location (dotDot :: rest) found
  /-- The name of a link, and what the link points to. -/
  | jump {links : Nat} {location found : Location} {name : Bytes} {target : Path}
    {rest : List Bytes} : tree.Enters location name → Location.IsShort (name :: location) →
    tree.entryAt (name :: location) = some (.link target) →
    Resolves tree links (origin target location) (target.segments ++ rest) found →
    Resolves tree (links + 1) location (name :: rest) found
  /-- The name of something else. It is looked at once more if it has to be a directory. -/
  | down {links : Nat} {location found : Location} {name : Bytes} {entry : Entry}
    {rest : List Bytes} : tree.Enters location name → Location.IsShort (name :: location) →
    tree.entryAt (name :: location) = some entry → (∀ target, entry ≠ .link target) →
    (asksForDirectory rest = true → Location.HasRoom (name :: location)) →
    Resolves tree links (name :: location) rest found →
    Resolves tree links location (name :: rest) found

theorem resolve_eq_resolveStep (tree : FileTree) (links : Nat) :
    ∃ jump, tree.resolve links = tree.resolveStep jump := by
  cases links with
  | zero => exact ⟨_, rfl⟩
  | succ links => exact ⟨_, rfl⟩

/-- A step resolves names, if what lies behind a link is resolved over fewer links. -/
theorem resolves_of_resolveStep {jump : Location → List Bytes → Except FileError Location}
    (hjump : ∀ start names, jump start names = .ok found →
      ∃ fewer, links = fewer + 1 ∧ tree.Resolves fewer start names found)
    (h : tree.resolveStep jump location names = .ok found) :
    tree.Resolves links location names found := by
  induction names generalizing location with
  | nil =>
    cases h
    exact .here links _
  | cons name rest ih =>
    rw [resolveStep] at h
    split at h
    · next hskip =>
      split at h
      · next hdirectory => exact .stay hdirectory hskip (ih h)
      · cases h
    next htelling =>
    split at h
    · next hparent =>
      subst hparent
      split at h
      · next hdirectory => exact .up hdirectory (ih h)
      · cases h
    next hparent =>
    split at h
    · cases h
    · next target hlook =>
      obtain ⟨hshort, henters, hlink⟩ := (look_eq_ok_iff htelling hparent).1 hlook
      obtain ⟨fewer, rfl, hresolves⟩ := hjump _ _ h
      exact .jump henters hshort hlink hresolves
    · next entry hlink hlook =>
      obtain ⟨hshort, henters, hentry⟩ := (look_eq_ok_iff htelling hparent).1 hlook
      split at h
      · cases h
      · next hroom =>
        exact .down henters hshort hentry (fun target heq => hlink target (heq ▸ rfl))
          (fun hasks => Nat.not_le.1 fun hlong => hroom ⟨hasks, hlong⟩) (ih h)

/-- Locations are found where names resolve to. -/
theorem resolve_eq_ok_iff : tree.resolve links location names = .ok found ↔
    tree.Resolves links location names found := by
  constructor
  · intro h
    induction links generalizing location names with
    | zero => exact resolves_of_resolveStep (fun _ _ hjump => by cases hjump) h
    | succ links ih => exact resolves_of_resolveStep (fun _ _ hjump => ⟨links, rfl, ih hjump⟩) h
  · intro h
    induction h with
    | here links location => cases links <;> rfl
    | @stay links location found name rest hdirectory hskip _ ih =>
      obtain ⟨jump, hstep⟩ := resolve_eq_resolveStep tree links
      rw [hstep] at ih ⊢
      rw [resolveStep, if_pos hskip, if_pos hdirectory, ih]
    | @up links location found rest hdirectory _ ih =>
      obtain ⟨jump, hstep⟩ := resolve_eq_resolveStep tree links
      rw [hstep] at ih ⊢
      rw [resolveStep, if_neg (by decide), if_pos rfl, if_pos hdirectory, ih]
    | @jump links location found name target rest henters hshort hlink _ ih =>
      have hlook := (look_eq_ok_iff henters.telling henters.ne_dotDot).2 ⟨hshort, henters, hlink⟩
      rw [resolve, resolveStep, if_neg henters.telling, if_neg henters.ne_dotDot, hlook]
      exact ih
    | @down links location found name entry rest henters hshort hentry hlink hroom _ ih =>
      obtain ⟨jump, hstep⟩ := resolve_eq_resolveStep tree links
      have hlook := (look_eq_ok_iff henters.telling henters.ne_dotDot).2 ⟨hshort, henters, hentry⟩
      rw [hstep] at ih ⊢
      rw [resolveStep, if_neg henters.telling, if_neg henters.ne_dotDot, hlook]
      have hnear : ¬(asksForDirectory rest = true ∧
          pathLimit ≤ (Location.path (name :: location)).bytes.length + 1) := fun hfar =>
        Nat.not_le.2 (hroom hfar.1) hfar.2
      cases entry with
      | link target => exact absurd rfl (hlink target)
      | file | directory | special => exact (if_neg hnear).trans ih

/-- What resolves leads to the entry that is found. -/
theorem Resolves.goes (h : tree.Resolves links location names found) :
    tree.Goes true links location names (.taken found) := by
  induction h with
  | here links location => exact .here links location
  | stay hdirectory hskip _ ih => exact .stay hdirectory hskip ih
  | up hdirectory _ ih => exact .up hdirectory ih
  | jump henters _ hlink _ ih => exact .jump henters hlink (fun _ => rfl) ih
  | down henters _ hentry hlink _ _ ih => exact .down henters hentry hlink ih

/-- A location that is found is not too deep. -/
theorem Resolves.isShort (h : tree.Resolves links location names found) (hshort : location.IsShort) :
    found.IsShort := by
  induction h with
  | here => exact hshort
  | stay _ _ _ ih => exact ih hshort
  | up _ _ ih => exact ih hshort.tail
  | jump _ _ _ _ ih =>
    refine ih ?_
    unfold origin
    split
    · exact Location.isShort_nil
    · exact hshort
  | down _ hnear _ _ _ _ ih => exact ih hnear

/-! ### Paths -/

theorem canonical_eq_ok_iff : tree.canonical p = .ok canon ↔
    p.bytes.contains 0 = false ∧ p.bytes ≠ [] ∧ ∃ found,
      tree.Resolves linkLimit (origin p tree.here) p.segments found ∧ canon = found.path := by
  unfold canonical
  cases p.bytes.contains 0 with
  | true => simp
  | false =>
    by_cases hnil : p.bytes = []
    · simp [hnil]
    · simp only [Bool.false_eq_true, if_false, if_neg hnil, ← resolve_eq_ok_iff, origin]
      cases tree.resolve linkLimit (if p.isAbsolute then [] else tree.here) p.segments with
      | error e => simp [Except.map]
      | ok found => simp [Except.map, hnil, eq_comm]

/-- A location that is found is one that the path leads to. -/
theorem exists_trace_of_canonical (h : tree.canonical p = .ok canon) :
    ∃ found, tree.trace true p = .ok (.taken found) ∧ canon = found.path := by
  obtain ⟨hzero, hne, found, hresolves, rfl⟩ := canonical_eq_ok_iff.1 h
  exact ⟨found, trace_eq_ok_iff.2 ⟨hzero, hne, hresolves.goes⟩, rfl⟩

/-- What is too deep is told by its paths: each of them has its normal form for an identity. -/
theorem identity_of_deep (hp : p.isAbsolute) (htrace : tree.trace true p = .ok (.taken location))
    (hdeep : ¬location.IsShort) : tree.identity p = p.normalize := by
  cases hcanonical : tree.canonical p with
  | error e => rw [identity, hcanonical]
  | ok canon =>
    obtain ⟨hzero, hne, found, hresolves, -⟩ := canonical_eq_ok_iff.1 hcanonical
    cases htrace.symm.trans (trace_eq_ok_iff.2 ⟨hzero, hne, hresolves.goes⟩)
    rw [origin, if_pos hp] at hresolves
    exact absurd (hresolves.isShort Location.isShort_nil) hdeep

/-- Whether a path leads to an entry, be the way there too long or not. -/
def HasEntry (tree : FileTree) (p : Path) : Prop :=
  ∃ found, tree.trace true p = .ok (.taken found)

theorem hasEntry_of_locate (h : tree.locate p = .ok location) : tree.HasEntry p :=
  ⟨location, (place_eq_ok_iff.1 (locate_eq_ok_iff.1 h)).2.2⟩

theorem hasEntry_of_find? (h : tree.find? p = some entry) : tree.HasEntry p := by
  obtain ⟨location, hlocate, -⟩ := find?_eq_some.1 h
  exact hasEntry_of_locate hlocate

theorem hasEntry_of_isFile (h : tree.isFile p = true) : tree.HasEntry p := by
  obtain ⟨entry, hfind, -⟩ := (isFile_iff tree p).1 h
  exact hasEntry_of_find? hfind

theorem hasEntry_of_canonical (h : tree.canonical p = .ok canon) : tree.HasEntry p := by
  obtain ⟨found, htrace, -⟩ := exists_trace_of_canonical h
  exact ⟨found, htrace⟩

/-! ### Trees that are not deep -/

/-- Whether the paths of all entries are short enough to be looked at as directories. -/
def IsShallow (tree : FileTree) : Prop :=
  ∀ location entry, tree.entryAt location = some entry → location.HasRoom

theorem isShallow_of_entries (h : ∀ e ∈ tree.entries, e.1.HasRoom) : tree.IsShallow := by
  intro location entry hentry
  cases location with
  | nil => decide
  | cons name above => exact h _ (mem_entries (List.cons_ne_nil name above) hentry)

/-- In a tree that is not deep, all that a path leads to is found. -/
theorem IsShallow.resolves (h : tree.IsShallow) {place : Place}
    (hgoes : tree.Goes true links location names place) (hplace : place = .taken found) :
    tree.Resolves links location names found := by
  induction hgoes with
  | here links location =>
    cases hplace
    exact .here links _
  | stay hdirectory hskip _ ih => exact .stay hdirectory hskip (ih hplace)
  | up hdirectory _ ih => exact .up hdirectory (ih hplace)
  | free => cases hplace
  | link _ hlast => cases hlast
  | jump henters hlink _ _ ih => exact .jump henters (h _ _ hlink).isShort hlink (ih hplace)
  | down henters hentry hlink _ ih =>
    exact .down henters (h _ _ hentry).isShort hentry hlink (fun _ => h _ _ hentry) (ih hplace)

theorem IsShallow.canonical_of_trace (h : tree.IsShallow)
    (htrace : tree.trace true p = .ok (.taken found)) : tree.canonical p = .ok found.path := by
  obtain ⟨hzero, hne, hgoes⟩ := trace_eq_ok_iff.1 htrace
  exact canonical_eq_ok_iff.2 ⟨hzero, hne, found, h.resolves hgoes rfl, rfl⟩

/-- In a tree that is not deep, the location of a file is found. -/
theorem IsShallow.canonical_isOk (h : tree.IsShallow) (hfile : tree.isFile p = true) :
    (tree.canonical p).isOk = true := by
  obtain ⟨found, htrace⟩ := hasEntry_of_isFile hfile
  rw [h.canonical_of_trace htrace]
  rfl

end FileTree

end PrecompiledHeaders
