import PrecompiledHeaders.FileTree.System
import PrecompiledHeaders.Proofs.FileTree.Plain
import PrecompiledHeaders.Proofs.Path.Join

/-!
# Ways through trees

In a tree as there is one on a disk, all that is not the root stands in a directory
(`FileTree.IsSound`). A path that ends with a name leads to an entry if it is not too long
(`Path.Fits`) and its way goes through directories (`FileTree.Passes`,
`FileTree.find?_eq_some_iff`). On the way of a normal path these are above the entry, so nothing but
the entry counts (`FileTree.IsSound.find?_eq_some_iff`). The entries of one directory have one way
to go (`FileTree.PassesTo.sibling`).
-/

namespace PrecompiledHeaders

/-- Whether a path is not too long, and neither are its names. -/
structure Path.Fits (p : Path) : Prop where
  zero : p.bytes.contains 0 = false
  length : p.bytes.length < FileTree.pathLimit
  names : ∀ name ∈ p.segments, name.length ≤ FileTree.nameLimit

namespace FileTree

open PrecompiledHeaders.Path

variable {tree : FileTree} {last : Bool} {links : Nat} {location : Location} {names : List Bytes}
  {name : Bytes} {place : Place} {entry : Entry} {p : Path}

/-- Whether a tree has no links, all its entries stand in directories, and what is written can only
    get lost in one place, where the device stands that holds nothing. -/
structure IsSound (tree : FileTree) : Prop where
  isPlain : tree.IsPlain
  above : ∀ name location entry, tree.entryAt (name :: location) = some entry →
    tree.entryAt location = some .directory
  null : ∀ location file, tree.entryAt location = some (.special file) → file.unwritable = none →
    location = locationOf ["dev", "null"]

/-- A tree is sound if each of its entries stands in a directory, and is no link and no special
    file. -/
theorem isSound_of_entries (h : ∀ e ∈ tree.entries, tree.entryAt e.1.tail = some .directory ∧
    (∀ file, e.2 ≠ .special file) ∧ ∀ target, e.2 ≠ .link target) : tree.IsSound := by
  refine ⟨isPlain_of_entries fun e he => (h e he).2.2, fun name location entry hentry => ?_,
    fun location file hspecial _ => ?_⟩
  · exact (h _ (mem_entries (List.cons_ne_nil name location) hentry)).1
  · cases location with
    | nil => cases hspecial
    | cons name above =>
      exact absurd rfl ((h _ (mem_entries (List.cons_ne_nil name above) hspecial)).2.1 file)

/-- Whether all locations on the way of names are directories, the last one too. -/
def Passes (tree : FileTree) (location : Location) : List Bytes → Prop
  | [] => tree.entryAt location = some .directory
  | name :: rest =>
    tree.entryAt location = some .directory ∧ tree.Passes (location.descend name) rest

theorem Passes.ending (h : tree.Passes location names) :
    tree.entryAt (names.foldl Location.descend location) = some .directory := by
  induction names generalizing location with
  | nil => exact h
  | cons name rest ih => exact ih h.2

theorem Passes.directory (h : tree.Passes location names) :
    tree.entryAt location = some .directory := by
  cases names with
  | nil => exact h
  | cons name rest => exact h.1

/-! ### Steps -/

/-- A way goes on from where a name leads, if there is an entry. -/
theorem Goes.cons (hplain : tree.IsPlain) (hdirectory : tree.entryAt location = some .directory)
    (hlength : name.length ≤ nameLimit) (hentry : tree.entryAt (location.descend name) = some entry)
    (h : tree.Goes last links (location.descend name) names place) :
    tree.Goes last links location (name :: names) place := by
  unfold Location.descend at hentry h
  split at h
  · next hskip => exact .stay hdirectory hskip h
  next htelling =>
  split at h
  · next hparent =>
    subst hparent
    exact .up hdirectory h
  next hparent =>
  rw [if_neg htelling, if_neg hparent] at hentry
  refine .down ⟨hdirectory, htelling, hparent, hlength⟩ hentry (fun target heq => ?_) h
  exact hplain _ target (heq ▸ hentry)

theorem IsSound.tail (h : tree.IsSound) (hdirectory : tree.entryAt location = some .directory) :
    tree.entryAt location.tail = some .directory := by
  cases location with
  | nil => rfl
  | cons name above => exact h.above name above .directory hdirectory

/-- What a way has come across behind its first name. -/
theorem Goes.of_cons (hsound : tree.IsSound)
    (h : tree.Goes last links location (name :: names) place) :
    tree.entryAt location = some .directory ∧ name.length ≤ nameLimit ∧
      ((∃ entry, tree.entryAt (location.descend name) = some entry) ∧
          tree.Goes last links (location.descend name) names place ∨
        names = [] ∧ location.descend name = name :: location ∧
          tree.entryAt (name :: location) = none ∧ place = .free location name) := by
  cases h with
  | stay hdirectory hskip hgoes =>
    rw [Location.descend, if_pos hskip]
    refine ⟨hdirectory, ?_, .inl ⟨⟨_, hdirectory⟩, hgoes⟩⟩
    rcases hskip with rfl | rfl <;> decide
  | up hdirectory hgoes =>
    exact ⟨hdirectory, by decide, .inl ⟨⟨_, hsound.tail hdirectory⟩, hgoes⟩⟩
  | free _ henters hfree =>
    exact ⟨henters.directory, henters.length, .inr ⟨rfl, henters.descend, hfree, rfl⟩⟩
  | link _ _ _ hlink | jump _ hlink => exact absurd hlink (hsound.isPlain _ _)
  | down henters hentry _ hgoes =>
    rw [henters.descend]
    exact ⟨henters.directory, henters.length, .inl ⟨⟨_, hentry⟩, hgoes⟩⟩

/-- A way through directories leads to what stands behind it. -/
theorem goes_of_passes (hplain : tree.IsPlain) (hpasses : tree.Passes location names)
    (hnames : ∀ n ∈ names ++ [name], n.length ≤ nameLimit)
    (hentry : tree.entryAt ((names ++ [name]).foldl Location.descend location) = some entry) :
    tree.Goes last links location (names ++ [name])
      (.taken ((names ++ [name]).foldl Location.descend location)) := by
  induction names generalizing location with
  | nil => exact .cons hplain hpasses (hnames name (by simp)) hentry (.here links _)
  | cons n rest ih =>
    have hnext : tree.Passes (location.descend n) rest := hpasses.2
    exact .cons hplain hpasses.1 (hnames n (by simp)) hnext.directory
      (ih hnext (fun m hm => hnames m (List.mem_cons_of_mem _ hm)) hentry)

/-- A way through directories leads to a free name behind it. -/
theorem goes_of_free (hplain : tree.IsPlain) (hpasses : tree.Passes location names)
    (hlimit : ∀ n ∈ names ++ [name], n.length ≤ nameLimit) (hname : IsName name)
    (hfree : tree.entryAt (name :: names.foldl Location.descend location) = none) :
    tree.Goes last links location (names ++ [name])
      (.free (names.foldl Location.descend location) name) := by
  induction names generalizing location with
  | nil => exact .free links (.of_isName hpasses hname (hlimit name (by simp))) hfree
  | cons n rest ih =>
    have hnext : tree.Passes (location.descend n) rest := hpasses.2
    exact .cons hplain hpasses.1 (hlimit n (by simp)) hnext.directory
      (ih hnext (fun m hm => hlimit m (List.mem_cons_of_mem _ hm)) hfree)

/-- What leads somewhere goes through directories. -/
theorem Goes.passes (hsound : tree.IsSound)
    (h : tree.Goes last links location (names ++ [name]) place) :
    tree.Passes location names ∧ (∀ n ∈ names ++ [name], n.length ≤ nameLimit) ∧
      ((∃ entry, tree.entryAt ((names ++ [name]).foldl Location.descend location) = some entry) ∧
          place = .taken ((names ++ [name]).foldl Location.descend location) ∨
        (names ++ [name]).foldl Location.descend location =
            name :: names.foldl Location.descend location ∧
          tree.entryAt (name :: names.foldl Location.descend location) = none ∧
          place = .free (names.foldl Location.descend location) name) := by
  induction names generalizing location with
  | nil =>
    obtain ⟨hdirectory, hlength, hplace⟩ := h.of_cons hsound
    refine ⟨hdirectory, by simpa using hlength, ?_⟩
    rcases hplace with ⟨hentry, htaken⟩ | ⟨-, hfree⟩
    · cases htaken
      exact .inl ⟨hentry, rfl⟩
    · exact .inr hfree
  | cons n rest ih =>
    obtain ⟨hdirectory, hlength, hplace⟩ := h.of_cons hsound
    rcases hplace with ⟨-, hgoes⟩ | ⟨hnil, -⟩
    · obtain ⟨hpasses, hnames, hplace⟩ := ih hgoes
      refine ⟨⟨hdirectory, hpasses⟩, fun m hm => ?_, hplace⟩
      rcases List.mem_cons.1 hm with rfl | hm
      · exact hlength
      · exact hnames m hm
    · exact absurd hnil (by simp)

/-! ### Paths -/

/-- Whether the way of an absolute path, up to its last piece, goes through directories. -/
def PassesTo (tree : FileTree) (p : Path) : Prop := tree.Passes [] p.segments.dropLast

theorem exists_segments_eq (p : Path) : ∃ name, p.segments = p.segments.dropLast ++ [name] :=
  ⟨p.segments.getLast (split_ne_nil _ _), (List.dropLast_concat_getLast _).symm⟩

theorem place_eq_ok_iff_of_isAbsolute (hp : p.isAbsolute) : tree.place last p = .ok place ↔
    p.bytes.contains 0 = false ∧ p.bytes.length < pathLimit ∧
      tree.Goes last linkLimit [] p.segments place := by
  have hne : p.bytes ≠ [] := fun hnil => by simp [isAbsolute, hnil] at hp
  rw [place_eq_ok_iff, trace_eq_ok_iff, origin, if_pos hp]
  constructor
  · rintro ⟨hzero, hlength, -, -, hgoes⟩
    exact ⟨hzero, hlength, hgoes⟩
  · rintro ⟨hzero, hlength, hgoes⟩
    exact ⟨hzero, hlength, hzero, hne, hgoes⟩

/-- An absolute path leads to its location, or to a free name there. -/
theorem place_eq_ok (hsound : tree.IsSound) (hp : p.isAbsolute)
    (h : tree.place last p = .ok place) : p.Fits ∧ tree.PassesTo p ∧
      ((∃ entry, tree.entryAt p.location = some entry) ∧ place = .taken p.location ∨
        ∃ name directory, p.location = name :: directory ∧
        tree.entryAt directory = some .directory ∧ tree.entryAt (name :: directory) = none ∧
        place = .free directory name) := by
  obtain ⟨hzero, hlength, hgoes⟩ := (place_eq_ok_iff_of_isAbsolute hp).1 h
  obtain ⟨name, hname⟩ := exists_segments_eq p
  rw [hname] at hgoes
  obtain ⟨hpasses, hnames, hplace⟩ := hgoes.passes hsound
  rw [← hname] at hnames hplace
  refine ⟨⟨hzero, hlength, hnames⟩, hpasses, hplace.imp_right ?_⟩
  rintro ⟨hlocation, hnone, hfree⟩
  exact ⟨name, _, hlocation, hpasses.ending, hnone, hfree⟩

/-- What an absolute path leads to. -/
theorem find?_eq_some_iff (hsound : tree.IsSound) (hp : p.isAbsolute) :
    tree.find? p = some entry ↔
      p.Fits ∧ tree.PassesTo p ∧ tree.entryAt p.location = some entry := by
  simp only [find?_eq_some, locate_eq_ok_iff]
  constructor
  · rintro ⟨location, hplace, hentry⟩
    obtain ⟨hfits, hpasses, ⟨-, htaken⟩ | ⟨_, _, -, -, -, hfree⟩⟩ := place_eq_ok hsound hp hplace
    · cases htaken
      exact ⟨hfits, hpasses, hentry⟩
    · cases hfree
  · rintro ⟨hfits, hpasses, hentry⟩
    refine ⟨p.location, (place_eq_ok_iff_of_isAbsolute hp).2 ⟨hfits.zero, hfits.length, ?_⟩, hentry⟩
    obtain ⟨name, hname⟩ := exists_segments_eq p
    have hnames := hfits.names
    rw [Path.location, hname] at hentry
    rw [hname] at hnames
    rw [Path.location, hname]
    exact goes_of_passes hsound.isPlain hpasses hnames hentry

/-! ### Normal paths -/

/-- What stands below a location makes it a directory. -/
theorem IsSound.directory_of_below (h : tree.IsSound) {below : List Bytes}
    (hentry : tree.entryAt (below ++ name :: location) = some entry) :
    tree.entryAt location = some .directory := by
  induction below generalizing entry with
  | nil => exact h.above name location entry hentry
  | cons n below ih => exact ih (h.above n _ entry hentry)

theorem IsSound.passes_names (h : tree.IsSound) (hnames : ∀ n ∈ names, IsName n)
    (hentry : tree.entryAt (names.reverse ++ location) = some .directory) :
    tree.Passes location names := by
  induction names generalizing location with
  | nil => exact hentry
  | cons n rest ih =>
    rw [List.reverse_cons, List.append_assoc, List.singleton_append] at hentry
    refine ⟨h.directory_of_below hentry, ?_⟩
    rw [Location.descend_of_isName location (hnames n List.mem_cons_self)]
    exact ih (fun m hm => hnames m (List.mem_cons_of_mem _ hm)) hentry

theorem IsSound.passesTo (h : tree.IsSound) (hp : p.IsNormal)
    (hentry : tree.entryAt p.location = some entry) : tree.PassesTo p := by
  obtain ⟨location, hproper, rfl⟩ := hp.exists_location
  rw [location_path hproper] at hentry
  cases location with
  | nil => exact ⟨rfl, rfl⟩
  | cons name above =>
    have hway : (Location.path (name :: above)).segments.dropLast = [] :: above.reverse := by
      rw [Location.segments_path hproper (List.cons_ne_nil name above), List.reverse_cons,
        ← List.cons_append, List.dropLast_concat]
    rw [PassesTo, hway]
    refine ⟨rfl, h.passes_names (fun n hn => hproper n ?_) ?_⟩
    · exact List.mem_cons_of_mem _ (List.mem_reverse.1 hn)
    · rw [List.reverse_reverse]
      exact (List.append_nil above).symm ▸ h.above name above entry hentry

/-- A normal path that is not too long leads to what stands at its location. -/
theorem IsSound.find?_eq_some_iff (h : tree.IsSound) (hp : p.IsNormal) :
    tree.find? p = some entry ↔ p.Fits ∧ tree.entryAt p.location = some entry := by
  rw [FileTree.find?_eq_some_iff h hp.isAbsolute]
  constructor
  · exact fun ⟨hfits, _, hentry⟩ => ⟨hfits, hentry⟩
  · exact fun ⟨hfits, hentry⟩ => ⟨hfits, h.passesTo hp hentry, hentry⟩

/-- What is found under a path and under its normal form is the same. -/
theorem eq_of_find?_normalize (hsound : tree.IsSound) (hp : p.isAbsolute) {entry' : Entry}
    (h : tree.find? p = some entry) (h' : tree.find? p.normalize = some entry') :
    entry = entry' := by
  obtain ⟨-, -, hat⟩ := (find?_eq_some_iff hsound hp).1 h
  obtain ⟨-, hat'⟩ := (hsound.find?_eq_some_iff (isNormal_normalize hp)).1 h'
  rw [location_normalize hp, hat] at hat'
  exact Option.some.inj hat'

/-! ### Files -/

/-- What is read at the normal form of a path is what the file holds that is found under the path. -/
theorem eq_of_read_normalize {contents read : Bytes} (hsound : tree.IsSound) (hp : p.isAbsolute)
    (hfind : tree.find? p = some (.file contents)) (hread : tree.read p.normalize = .ok read) :
    read = contents := by
  obtain ⟨entry, hentry, hread⟩ := (read_eq_ok_iff _ _ _).1 hread
  cases eq_of_find?_normalize hsound hp hfind hentry
  exact (Except.ok.inj hread).symm

end FileTree

/-! ### Entries of one directory -/

open PrecompiledHeaders.Path FileTree

variable {directory : Path} {name other : Bytes} {tree : FileTree}

/-- What can be said in front of one name can be said in front of another, if that does not make
    the path too long. -/
theorem Path.Fits.sibling (h : (directory.join ⟨name⟩).Fits)
    (hname : separator ∉ name) (hother : separator ∉ other) (hzero : 0 ∉ other)
    (hlimit : other.length ≤ nameLimit)
    (hlength : (directory.join ⟨other⟩).bytes.length < pathLimit) :
    (directory.join ⟨other⟩).Fits := by
  obtain ⟨way, -, hsegments⟩ := directory.exists_segments_join
  refine ⟨?_, hlength, fun n hn => ?_⟩
  · have hnot : 0 ∉ (directory.join ⟨name⟩).bytes := by simpa using h.zero
    rw [List.contains_eq_mem, decide_eq_false_iff_not]
    intro hmem
    rcases mem_bytes_join hother hmem with hmem | hmem | hmem
    · exact hnot (mem_bytes_join_left hname hmem)
    · exact absurd hmem (by decide)
    · exact hzero hmem
  · rw [hsegments other hother, List.mem_append, List.mem_singleton] at hn
    rcases hn with hn | rfl
    · exact h.names n (by rw [hsegments name hname]; exact List.mem_append_left _ hn)
    · exact hlimit

theorem FileTree.PassesTo.sibling (h : tree.PassesTo (directory.join ⟨name⟩))
    (hname : separator ∉ name) (hother : separator ∉ other) : tree.PassesTo (directory.join ⟨other⟩) := by
  obtain ⟨way, -, hsegments⟩ := directory.exists_segments_join
  rw [PassesTo, hsegments name hname, List.dropLast_concat] at h
  rwa [PassesTo, hsegments other hother, List.dropLast_concat]

theorem Path.Fits.withSlashes {count : Nat} (h : directory.Fits) (hname : separator ∉ name)
    (hzero : 0 ∉ name) (hlimit : name.length ≤ nameLimit)
    (hlength : directory.bytes.length + 1 + count + name.length < pathLimit) :
    ((directory.withSlashes count).join ⟨name⟩).Fits := by
  refine ⟨contains_join_withSlashes hname h.zero hzero, ?_, fun n hn => ?_⟩
  · rwa [length_join_withSlashes hname]
  · rw [segments_join_withSlashes hname, List.mem_append, List.mem_append, List.mem_singleton] at hn
    rcases hn with (hn | hn) | rfl
    · exact h.names n hn
    · rw [List.eq_of_mem_replicate hn]
      exact Nat.zero_le _
    · exact hlimit

theorem FileTree.passesTo_withSlashes (count : Nat) (hname : separator ∉ name)
    (h : tree.Passes [] directory.segments) :
    tree.PassesTo ((directory.withSlashes count).join ⟨name⟩) := by
  -- The empty pieces stay where they are.
  have hstays : ∀ {location : Location} {names : List Bytes}, tree.Passes location names →
      tree.Passes location (names ++ List.replicate count []) := by
    intro location names h
    induction names generalizing location with
    | nil =>
      induction count with
      | zero => exact h
      | succ count ih => exact ⟨h, ih⟩
    | cons name rest ih => exact ⟨h.1, ih h.2⟩
  rw [PassesTo, segments_join_withSlashes hname, List.dropLast_concat]
  exact hstays h

variable {entry entry' : Entry}

/-- Where one entry of a directory is found, another one is found too, if its path is not too
    long. -/
theorem FileTree.find?_sibling (hsound : tree.IsSound) (hdirectory : directory.isAbsolute)
    (hname : separator ∉ name) (hother : IsName other) (hzero : 0 ∉ other)
    (h : tree.find? (directory.join ⟨name⟩) = some entry)
    (h' : tree.find? (directory.join ⟨other⟩).normalize = some entry')
    (hlength : (directory.join ⟨other⟩).bytes.length < pathLimit) :
    tree.find? (directory.join ⟨other⟩) = some entry' := by
  have habs := isAbsolute_join hdirectory ⟨other⟩
  obtain ⟨hfits, hpasses, -⟩ := (find?_eq_some_iff hsound (isAbsolute_join hdirectory ⟨name⟩)).1 h
  obtain ⟨hfits', hat⟩ := (hsound.find?_eq_some_iff (isNormal_normalize habs)).1 h'
  rw [location_normalize habs] at hat
  -- The normal form ends with the name as well, so the name is not too long.
  have hlimit : other.length ≤ nameLimit := by
    refine hfits'.names other (mem_segments_of_mem_location ?_)
    rw [location_normalize habs, location_join directory hother]
    exact List.mem_cons_self
  exact (find?_eq_some_iff hsound habs).2
    ⟨hfits.sibling hname hother.not_mem hzero hlimit hlength,
      hpasses.sibling hname hother.not_mem, hat⟩

end PrecompiledHeaders
