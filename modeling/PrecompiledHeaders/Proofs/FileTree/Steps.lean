import PrecompiledHeaders.FileTree.Access
import PrecompiledHeaders.Proofs.Path.Absolute

/-!
# What a way comes across

The way of a path goes from directory to directory, piece by piece. It may come to a link, and then
it goes on where the link points. It ends at an entry, or at a name that is free.

`FileTree.Goes` says this step by step, and paths are followed like this
(`FileTree.follow_eq_ok_iff`). So what holds of all ways is shown by induction on `FileTree.Goes`,
with one case for each thing that a way can come across.
-/

namespace PrecompiledHeaders

theorem Entry.ne_directory_of_isFile {entry : Entry} (h : entry.isFile = true) :
    entry ≠ .directory := by
  rintro rfl
  cases h

theorem Entry.ne_directory_of_read {entry : Entry} {contents : Bytes}
    (h : entry.read = .ok contents) : entry ≠ .directory := by
  rintro rfl
  cases h

namespace FileTree

open PrecompiledHeaders.Path

variable {tree : FileTree} {last : Bool} {links : Nat} {location found : Location} {name : Bytes}
  {names : List Bytes} {place place' : Place} {entry : Entry} {p : Path}

theorem mem_entries (hne : location ≠ []) (h : tree.entryAt location = some entry) :
    (location, entry) ∈ tree.entries := by
  obtain ⟨name, above, rfl⟩ := List.exists_cons_of_ne_nil hne
  obtain ⟨before, behind, hentries, -⟩ := List.lookup_eq_some_iff.1 h
  rw [hentries]
  exact List.mem_append_right _ List.mem_cons_self

theorem mem_entries_of_isFile (h : tree.entryAt location = some entry)
    (hfile : entry.isFile = true) : (location, entry) ∈ tree.entries := by
  refine mem_entries ?_ h
  rintro rfl
  cases h
  cases hfile

/-! ### Ways -/

/-- Where a path leads on from, if it is to be followed from a location. -/
def origin (target : Path) (location : Location) : Location :=
  if target.isAbsolute then [] else location

theorem origin_nil (target : Path) : origin target [] = [] := ite_self []

theorem entryAt_origin (h : tree.entryAt location = some .directory) (target : Path) :
    tree.entryAt (origin target location) = some .directory := by
  unfold origin
  split
  · rfl
  · exact h

/-- Whether a name leads from a directory to what is below it, be there an entry or not. -/
structure Enters (tree : FileTree) (location : Location) (name : Bytes) : Prop where
  directory : tree.entryAt location = some .directory
  telling : ¬(name = [] ∨ name = dot)
  ne_dotDot : name ≠ dotDot
  length : name.length ≤ nameLimit

theorem Enters.of_isName (hdirectory : tree.entryAt location = some .directory) (hname : IsName name)
    (hlength : name.length ≤ nameLimit) : tree.Enters location name :=
  ⟨hdirectory, not_or.2 ⟨hname.ne_nil, hname.ne_dot⟩, hname.ne_dotDot, hlength⟩

theorem Enters.isName (h : tree.Enters location name) (hname : separator ∉ name) : IsName name :=
  ⟨(not_or.1 h.telling).1, (not_or.1 h.telling).2, h.ne_dotDot, hname⟩

theorem Enters.descend (h : tree.Enters location name) :
    location.descend name = name :: location := by
  rw [Location.descend, if_neg h.telling, if_neg h.ne_dotDot]

/-- Whether names lead from a location to a place, over at most the given number of links. With
    `last`, a link at the very end is followed too. -/
inductive Goes (tree : FileTree) (last : Bool) : Nat → Location → List Bytes → Place → Prop
  /-- The end of the way. -/
  | here (links : Nat) (location : Location) : Goes tree last links location [] (.taken location)
  /-- A piece that says nothing. -/
  | stay {links : Nat} {location : Location} {name : Bytes} {rest : List Bytes} {place : Place} :
    tree.entryAt location = some .directory → name = [] ∨ name = dot →
    Goes tree last links location rest place → Goes tree last links location (name :: rest) place
  /-- A piece that leads up. -/
  | up {links : Nat} {location : Location} {rest : List Bytes} {place : Place} :
    tree.entryAt location = some .directory →
    Goes tree last links location.tail rest place →
    Goes tree last links location (dotDot :: rest) place
  /-- A name that is free. -/
  | free {location : Location} {name : Bytes} (links : Nat) : tree.Enters location name →
    tree.entryAt (name :: location) = none →
    Goes tree last links location [name] (.free location name)
  /-- The name of a link that is not followed. -/
  | link {location : Location} {name : Bytes} {target : Path} (links : Nat) : last = false →
    tree.Enters location name → tree.entryAt (name :: location) = some (.link target) →
    Goes tree last links location [name] (.taken (name :: location))
  /-- The name of a link, and what the link points to. -/
  | jump {links : Nat} {location : Location} {name : Bytes} {target : Path} {rest : List Bytes}
    {place : Place} : tree.Enters location name →
    tree.entryAt (name :: location) = some (.link target) → (rest = [] → last = true) →
    Goes tree last links (origin target location) (target.segments ++ rest) place →
    Goes tree last (links + 1) location (name :: rest) place
  /-- The name of something else. -/
  | down {links : Nat} {location : Location} {name : Bytes} {entry : Entry} {rest : List Bytes}
    {place : Place} : tree.Enters location name → tree.entryAt (name :: location) = some entry →
    (∀ target, entry ≠ .link target) → Goes tree last links (name :: location) rest place →
    Goes tree last links location (name :: rest) place

/-- Below a directory, it depends on what stands there how a way goes on. -/
theorem Enters.step_eq (h : tree.Enters location name)
    (jump : Location → List Bytes → Except FileError Place) :
    tree.step last jump location (name :: names) =
      match tree.entryAt (name :: location) with
      | none => if names = [] then .ok (.free location name) else .error .notFound
      | some (.link target) =>
        if names = [] ∧ !last then .ok (.taken (name :: location))
        else jump (origin target location) (target.segments ++ names)
      | some _ => tree.step last jump (name :: location) names := by
  rw [step, if_neg (not_not_intro h.directory), if_neg h.telling, if_neg h.ne_dotDot,
    if_neg (Nat.not_lt.2 h.length)]
  rfl

theorem follow_eq_step (tree : FileTree) (last : Bool) (links : Nat) :
    ∃ jump, tree.follow last links = tree.step last jump := by
  cases links with
  | zero => exact ⟨_, rfl⟩
  | succ links => exact ⟨_, rfl⟩

/-- A step goes a way, if what lies behind a link is another way over fewer links. -/
theorem goes_of_step {jump : Location → List Bytes → Except FileError Place}
    (hjump : ∀ start names, jump start names = .ok place →
      ∃ fewer, links = fewer + 1 ∧ tree.Goes last fewer start names place)
    (h : tree.step last jump location names = .ok place) :
    tree.Goes last links location names place := by
  induction names generalizing location with
  | nil =>
    cases h
    exact .here links location
  | cons name rest ih =>
    rw [step] at h
    split at h
    · cases h
    next hdirectory =>
    have hdirectory := Decidable.of_not_not hdirectory
    split at h
    · next hskip => exact .stay hdirectory hskip (ih h)
    next htelling =>
    split at h
    · next hparent =>
      subst hparent
      exact .up hdirectory (ih h)
    next hdotDot =>
    split at h
    · cases h
    next hlength =>
    have henters : tree.Enters location name :=
      ⟨hdirectory, htelling, hdotDot, Nat.not_lt.1 hlength⟩
    -- What stands below the name decides how the way goes on.
    split at h
    · next hfree =>
      split at h
      · next hrest =>
        cases h
        subst hrest
        exact .free links henters hfree
      · cases h
    · next target hlink =>
      split at h
      · next hend =>
        cases h
        obtain ⟨rfl, hlast⟩ := hend
        exact .link links (by simpa using hlast) henters hlink
      · next hend =>
        obtain ⟨fewer, rfl, hgoes⟩ := hjump _ _ h
        exact .jump henters hlink (fun hrest => by simpa [hrest] using hend) hgoes
    · next entry hlink hentry =>
      exact .down henters hentry (fun target heq => hlink target heq) (ih h)

/-- Names are followed the way that they lead. -/
theorem follow_eq_ok_iff : tree.follow last links location names = .ok place ↔
    tree.Goes last links location names place := by
  constructor
  · intro h
    induction links generalizing location names with
    | zero => exact goes_of_step (fun _ _ hjump => by cases hjump) h
    | succ links ih => exact goes_of_step (fun _ _ hjump => ⟨links, rfl, ih hjump⟩) h
  · intro h
    induction h with
    | here links location => cases links <;> rfl
    | @stay links location name rest place hdirectory hskip _ ih =>
      obtain ⟨jump, hstep⟩ := follow_eq_step tree last links
      rw [hstep] at ih ⊢
      rw [step, if_neg (not_not_intro hdirectory), if_pos hskip, ih]
    | @up links location rest place hdirectory _ ih =>
      obtain ⟨jump, hstep⟩ := follow_eq_step tree last links
      rw [hstep] at ih ⊢
      rw [step, if_neg (not_not_intro hdirectory), if_neg (by decide), if_pos rfl, ih]
    | @free location name links henters hfree =>
      obtain ⟨jump, hstep⟩ := follow_eq_step tree last links
      rw [hstep, henters.step_eq, hfree]
      rfl
    | @link location name target links hlast henters hlink =>
      obtain ⟨jump, hstep⟩ := follow_eq_step tree last links
      rw [hstep, henters.step_eq, hlink]
      exact if_pos ⟨rfl, by rw [hlast]; rfl⟩
    | @jump links location name target rest place henters hlink hlast _ ih =>
      rw [follow, henters.step_eq, hlink]
      refine (if_neg ?_).trans ih
      rintro ⟨hrest, hnot⟩
      rw [hlast hrest] at hnot
      cases hnot
    | @down links location name entry rest place henters hentry hlink _ ih =>
      obtain ⟨jump, hstep⟩ := follow_eq_step tree last links
      rw [hstep] at ih ⊢
      rw [henters.step_eq, hentry]
      cases entry with
      | link target => exact absurd rfl (hlink target)
      | file | directory | special => exact ih

namespace Goes

/-- Names lead to one place only. -/
theorem unique (h : tree.Goes last links location names place)
    (h' : tree.Goes last links location names place') : place = place' :=
  Except.ok.inj ((follow_eq_ok_iff.2 h).symm.trans (follow_eq_ok_iff.2 h'))

theorem stay_iff (hdirectory : tree.entryAt location = some .directory)
    (hskip : name = [] ∨ name = dot) :
    tree.Goes last links location (name :: names) place ↔
      tree.Goes last links location names place := by
  refine ⟨fun h => ?_, .stay hdirectory hskip⟩
  cases h with
  | stay _ _ hgoes => exact hgoes
  | up => exact absurd hskip (by decide)
  | free _ henters | link _ _ henters | jump henters | down henters =>
    exact absurd hskip henters.telling

theorem down_iff (henters : tree.Enters location name)
    (hentry : tree.entryAt (name :: location) = some entry) (hlink : ∀ target, entry ≠ .link target) :
    tree.Goes last links location (name :: names) place ↔
      tree.Goes last links (name :: location) names place := by
  refine ⟨fun h => ?_, .down henters hentry hlink⟩
  cases h with
  | stay _ hskip => exact absurd hskip henters.telling
  | up => exact absurd rfl henters.ne_dotDot
  | free _ _ hfree => cases hfree.symm.trans hentry
  | link _ _ _ hat => exact absurd (Option.some.inj (hentry.symm.trans hat)) (hlink _)
  | jump _ hat => exact absurd (Option.some.inj (hentry.symm.trans hat)) (hlink _)
  | down _ _ _ hgoes => exact hgoes

end Goes

/-! ### Paths -/

theorem trace_eq_ok_iff : tree.trace last p = .ok place ↔
    p.bytes.contains 0 = false ∧ p.bytes ≠ [] ∧
      tree.Goes last linkLimit (origin p tree.here) p.segments place := by
  rw [trace, ← follow_eq_ok_iff]
  cases p.bytes.contains 0 with
  | true => simp
  | false =>
    by_cases hnil : p.bytes = []
    · simp [hnil]
    · simp [hnil, origin]

theorem place_eq_ok_iff : tree.place last p = .ok place ↔
    p.bytes.contains 0 = false ∧ p.bytes.length < pathLimit ∧ tree.trace last p = .ok place := by
  rw [FileTree.place]
  cases p.bytes.contains 0 with
  | true => simp
  | false =>
    by_cases hlong : pathLimit ≤ p.bytes.length
    · simp [hlong, Nat.not_lt.2 hlong]
    · simp [hlong, Nat.not_le.1 hlong]

theorem locate_eq_ok_iff : tree.locate p = .ok location ↔
    tree.place true p = .ok (.taken location) := by
  unfold locate
  cases tree.place true p with
  | error e => exact iff_of_false nofun nofun
  | ok place => cases place <;> simp [bind, Except.bind, Place.location]

theorem find?_eq_some : tree.find? p = some entry ↔
    ∃ location, tree.locate p = .ok location ∧ tree.entryAt location = some entry := by
  unfold find?
  cases tree.locate p with
  | error e => simp
  | ok location => simp

/-! ### Files -/

theorem isFile_iff (tree : FileTree) (p : Path) :
    tree.isFile p = true ↔ ∃ entry, tree.find? p = some entry ∧ entry.isFile = true := by
  rw [isFile, Option.any_eq_true]

theorem isFile_of_find? {contents : Bytes} (h : tree.find? p = some (.file contents)) :
    tree.isFile p = true :=
  (isFile_iff tree p).2 ⟨_, h, rfl⟩

theorem read_eq_ok_iff (tree : FileTree) (p : Path) (contents : Bytes) :
    tree.read p = .ok contents ↔
      ∃ entry, tree.find? p = some entry ∧ entry.read = .ok contents := by
  unfold read find?
  cases tree.locate p with
  | error e => simp [bind, Except.bind]
  | ok location =>
    simp only [bind, Except.bind]
    cases tree.entryAt location <;> simp

theorem read_of_find? {contents : Bytes} (h : tree.find? p = some (.file contents)) :
    tree.read p = .ok contents :=
  (read_eq_ok_iff tree p contents).2 ⟨_, h, rfl⟩

end FileTree

end PrecompiledHeaders
