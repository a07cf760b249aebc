import Mathlib.Data.List.TakeWhile
import PrecompiledHeaders.Proofs.FileTree.Ways

/-!
# Identities in trees with links

A way comes to links one after the other. What it leads to in the end is a location that can be
reached without any (`FileTree.IsReal`), and the path of such a location is its own identity
(`FileTree.IsReal.identity_path`). So the identities of two paths are equal if they lead to the same
entry, and its location is found for both.

Normalising a path takes away names that a `..` cancels. That makes no difference as long as these
are names of directories. But a `..` behind a link (`FileTree.TurnsBack`) leads up from what the link
points to, while the normal form of the path goes on from where the link stands. For all other paths
of which the location is found, the normal form has the identity of the path
(`FileTree.identity_normalize`).
-/

namespace PrecompiledHeaders.FileTree

open PrecompiledHeaders.Path

variable {tree : FileTree} {links : Nat} {location found : Location} {names rest : List Bytes}
  {name : Bytes} {place : Place} {p q canon : Path}

/-! ### Locations that are reached without links -/

/-- Whether a location is reached from the root through directories, and what stands there is no
    link. -/
inductive IsReal (tree : FileTree) : Location → Prop
  | root : IsReal tree []
  | entry {above : Location} {name : Bytes} {entry : Entry} : IsReal tree above →
    tree.entryAt above = some .directory → IsName name → name.length ≤ nameLimit →
    tree.entryAt (name :: above) = some entry → (∀ target, entry ≠ .link target) →
    IsReal tree (name :: above)

namespace IsReal

theorem tail (h : tree.IsReal location) : tree.IsReal location.tail := by
  cases h with
  | root => exact .root
  | entry habove => exact habove

theorem isProper (h : tree.IsReal location) : location.IsProper := by
  induction h with
  | root => exact fun _ hn => absurd hn List.not_mem_nil
  | entry _ _ hname _ _ _ ih =>
    intro n hn
    rcases List.mem_cons.1 hn with rfl | hn
    · exact hname
    · exact ih n hn

/-- The names of a location lead there. -/
theorem goes_reverse_iff (h : tree.IsReal location) (names : List Bytes) :
    tree.Goes true links [] (location.reverse ++ names) place ↔
      tree.Goes true links location names place := by
  induction h generalizing names with
  | root => rfl
  | entry _ hdirectory hname hlength hentry hlink ih =>
    rw [List.reverse_cons, List.append_assoc, ih, List.singleton_append,
      Goes.down_iff (.of_isName hdirectory hname hlength) hentry hlink]

/-- From a location that is not too deep, what resolves there resolves along its names. -/
theorem resolves_reverse (h : tree.IsReal location) (hshort : location.IsShort)
    (hasks : asksForDirectory names = false)
    (hresolves : tree.Resolves links location names found) :
    tree.Resolves links [] (location.reverse ++ names) found := by
  induction h generalizing names with
  | root => exact hresolves
  | entry _ hdirectory hname hlength hentry hlink ih =>
    have henters : Enters tree _ _ := .of_isName hdirectory hname hlength
    rw [List.reverse_cons, List.append_assoc, List.singleton_append]
    exact ih hshort.tail (asksForDirectory_cons henters.telling henters.ne_dotDot)
      (.down henters hshort hentry hlink (fun hnot => by rw [hasks] at hnot; cases hnot) hresolves)

end IsReal

/-- The way of the path of a location goes along its names. -/
theorem goes_path_iff (h : location.IsProper) :
    tree.Goes true links [] location.path.segments place ↔
      tree.Goes true links [] location.reverse place := by
  cases location with
  | nil =>
    have hroot : (Location.path []).segments = [[], []] := rfl
    rw [hroot, Goes.stay_iff rfl (.inl rfl), Goes.stay_iff rfl (.inl rfl)]
    rfl
  | cons name above =>
    rw [Location.segments_path h (List.cons_ne_nil name above), Goes.stay_iff rfl (.inl rfl)]

theorem resolves_path (h : location.IsProper)
    (hresolves : tree.Resolves links [] location.reverse found) :
    tree.Resolves links [] location.path.segments found := by
  cases location with
  | nil =>
    have hroot : (Location.path []).segments = [[], []] := rfl
    rw [hroot]
    exact .stay rfl (.inl rfl) (.stay rfl (.inl rfl) hresolves)
  | cons name above =>
    rw [Location.segments_path h (List.cons_ne_nil name above)]
    exact .stay rfl (.inl rfl) hresolves

/-! ### Ways that come to a link -/

/-- Whether a way goes through directories and then comes to a link, whose path is not too long. -/
structure Crosses (tree : FileTree) (location : Location) (names front : List Bytes) (name : Bytes)
    (rest : List Bytes) (target : Path) : Prop where
  split : names = front ++ name :: rest
  passes : tree.Passes location front
  isReal : tree.IsReal (front.foldl Location.descend location)
  isName : IsName name
  length : name.length ≤ nameLimit
  isShort : Location.IsShort (name :: front.foldl Location.descend location)
  link : tree.entryAt (name :: front.foldl Location.descend location) = some (.link target)

theorem IsReal.origin (h : tree.IsReal location) (target : Path) :
    tree.IsReal (origin target location) := by
  unfold FileTree.origin
  split
  · exact .root
  · exact h

theorem Crosses.cons {front : List Bytes} {other : Bytes} {target : Path}
    (h : tree.Crosses (location.descend name) names front other rest target)
    (hdirectory : tree.entryAt location = some .directory) :
    tree.Crosses location (name :: names) (name :: front) other rest target :=
  ⟨congrArg (name :: ·) h.split, ⟨hdirectory, h.passes⟩, h.isReal, h.isName, h.length, h.isShort,
    h.link⟩

theorem Crosses.enters {front : List Bytes} {target : Path}
    (h : tree.Crosses location names front name rest target) :
    tree.Enters (front.foldl Location.descend location) name :=
  .of_isName h.passes.ending h.isName h.length

theorem not_mem_segments (p : Path) : ∀ n ∈ p.segments, separator ∉ n := fun _ hn =>
  not_mem_of_mem_split hn

/-- However many links there are on a way, the entry that it leads to can be reached without any. -/
theorem Goes.isReal (h : tree.Goes true links location names place) (hreal : tree.IsReal location)
    (hnames : ∀ n ∈ names, separator ∉ n) (hplace : place = .taken found) :
    tree.IsReal found := by
  induction h with
  | here =>
    cases hplace
    exact hreal
  | stay _ _ _ ih => exact ih hreal (fun n hn => hnames n (List.mem_cons_of_mem _ hn)) hplace
  | up _ _ ih => exact ih hreal.tail (fun n hn => hnames n (List.mem_cons_of_mem _ hn)) hplace
  | free => cases hplace
  | link _ hlast => cases hlast
  | @jump _ _ _ target _ _ _ _ _ _ ih =>
    refine ih (hreal.origin target) (fun n hn => ?_) hplace
    rcases List.mem_append.1 hn with hn | hn
    · exact not_mem_segments target n hn
    · exact hnames n (List.mem_cons_of_mem _ hn)
  | down henters hentry hlink _ ih =>
    have hname := henters.isName (hnames _ List.mem_cons_self)
    exact ih (.entry hreal henters.directory hname henters.length hentry hlink)
      (fun n hn => hnames n (List.mem_cons_of_mem _ hn)) hplace

/-- Whether a way goes through directories to the end, or comes to a link and resolves from there. -/
def Arrives (tree : FileTree) (links : Nat) (location : Location) (names : List Bytes)
    (found : Location) : Prop :=
  found = names.foldl Location.descend location ∨
    ∃ front name rest target fewer, tree.Crosses location names front name rest target ∧
      links = fewer + 1 ∧ tree.Resolves fewer
        (origin target (front.foldl Location.descend location)) (target.segments ++ rest) found

theorem Arrives.cons (h : tree.Arrives links (location.descend name) names found)
    (hdirectory : tree.entryAt location = some .directory) :
    tree.Arrives links location (name :: names) found := by
  refine h.imp_right ?_
  rintro ⟨front, other, rest, target, fewer, hcrosses, hresolves⟩
  exact ⟨_, other, rest, target, fewer, hcrosses.cons hdirectory, hresolves⟩

/-- A way that resolves comes to what is found, or to a link first. -/
theorem Resolves.arrives (h : tree.Resolves links location names found)
    (hreal : tree.IsReal location) (hnames : ∀ n ∈ names, separator ∉ n) :
    tree.Arrives links location names found := by
  induction h with
  | here => exact .inl rfl
  | @stay _ location _ name _ hdirectory hskip _ ih =>
    have hstays : location.descend name = location := if_pos hskip
    refine .cons ?_ hdirectory
    rw [hstays]
    exact ih hreal fun n hn => hnames n (List.mem_cons_of_mem _ hn)
  | up hdirectory _ ih =>
    exact .cons (ih hreal.tail fun n hn => hnames n (List.mem_cons_of_mem _ hn)) hdirectory
  | @jump fewer _ _ name target rest henters hshort hlink hresolves _ =>
    have hname := henters.isName (hnames _ List.mem_cons_self)
    exact .inr ⟨[], name, rest, target, fewer,
      ⟨rfl, henters.directory, hreal, hname, henters.length, hshort, hlink⟩, rfl, hresolves⟩
  | down henters _ hentry hlink _ _ ih =>
    have hname := henters.isName (hnames _ List.mem_cons_self)
    refine .cons ?_ henters.directory
    rw [henters.descend]
    exact ih (.entry hreal henters.directory hname henters.length hentry hlink)
      fun n hn => hnames n (List.mem_cons_of_mem _ hn)

/-! ### Canonical paths -/

theorem canonical_eq_ok_iff_of_isAbsolute (hp : p.isAbsolute) : tree.canonical p = .ok canon ↔
    p.bytes.contains 0 = false ∧ ∃ found,
      tree.Resolves linkLimit [] p.segments found ∧ canon = found.path := by
  have hne : p.bytes ≠ [] := fun hnil => by simp [isAbsolute, hnil] at hp
  rw [canonical_eq_ok_iff, origin, if_pos hp]
  exact and_congr_right fun _ => and_iff_right hne

/-- What is found can be reached without links, if a relative path is taken from a directory that
    can. -/
theorem isReal_of_canonical (hstart : p.isAbsolute ∨ tree.IsReal tree.here)
    (h : tree.canonical p = .ok canon) : ∃ found, tree.IsReal found ∧ canon = found.path := by
  obtain ⟨found, htrace, rfl⟩ := exists_trace_of_canonical h
  obtain ⟨-, -, hgoes⟩ := trace_eq_ok_iff.1 htrace
  refine ⟨found, hgoes.isReal ?_ (not_mem_segments p) rfl, rfl⟩
  unfold origin
  split
  · exact .root
  · next hp => exact hstart.resolve_left hp

/-- The path of a real location leads there, if that can be asked for at all. -/
theorem IsReal.identity_path (h : tree.IsReal location) :
    tree.identity location.path = location.path := by
  unfold identity
  cases hcanonical : tree.canonical location.path with
  | error e => exact Location.normalize_path h.isProper
  | ok canon =>
    obtain ⟨-, found, hresolves, rfl⟩ :=
      (canonical_eq_ok_iff_of_isAbsolute location.isAbsolute_path).1 hcanonical
    have hgoes := hresolves.goes
    rw [goes_path_iff h.isProper, ← List.append_nil location.reverse, h.goes_reverse_iff] at hgoes
    cases hgoes
    rfl

/-! ### Pieces that say nothing -/

/-- Whether names are others without some that say nothing. -/
inductive Thins : List Bytes → List Bytes → Prop
  | nil : Thins [] []
  | skip {name : Bytes} {names thin : List Bytes} : name = [] ∨ name = dot → Thins names thin →
    Thins (name :: names) thin
  | keep (name : Bytes) {names thin : List Bytes} : Thins names thin →
    Thins (name :: names) (name :: thin)

theorem Thins.append {thin : List Bytes} (h : Thins names thin) (front : List Bytes) :
    Thins (front ++ names) (front ++ thin) := by
  induction front with
  | nil => exact h
  | cons name front ih => exact ih.keep name

/-- The names that say something. -/
def telling (names : List Bytes) : List Bytes :=
  names.filter fun name => ¬(name = [] ∨ name = dot)

theorem thins_telling (names : List Bytes) : Thins names (telling names) := by
  induction names with
  | nil => exact .nil
  | cons name names ih =>
    by_cases hskip : name = [] ∨ name = dot
    · rw [telling, List.filter_cons_of_neg (by simp [hskip])]
      exact .skip hskip ih
    · rw [telling, List.filter_cons_of_pos (by simp [not_or.1 hskip])]
      exact ih.keep name

theorem foldl_telling (location : Location) (hup : dotDot ∉ names) :
    names.foldl Location.descend location = (telling names).reverse ++ location := by
  induction names generalizing location with
  | nil => rfl
  | cons name names ih =>
    obtain ⟨hname, hrest⟩ := not_or.1 (mt List.mem_cons.2 hup)
    rw [List.foldl_cons, ih _ hrest, Location.descend]
    by_cases hskip : name = [] ∨ name = dot
    · rw [if_pos hskip, telling, telling, List.filter_cons_of_neg (by simp [hskip])]
    · rw [if_neg hskip, if_neg (Ne.symm hname), telling, telling,
        List.filter_cons_of_pos (by simp [not_or.1 hskip]), List.reverse_cons, List.append_assoc]
      rfl

theorem asksForDirectory_iff : asksForDirectory names = true ↔
    names ≠ [] ∧ ∀ name ∈ (telling names).head?, name = dotDot := by
  have hhead : (telling names).head? =
      (names.dropWhile fun name => name = [] ∨ name = dot).head? := by
    rw [telling, List.head?_filter, List.find?_eq_head?_dropWhile_not]
    simp
  rw [hhead, asksForDirectory]
  cases hrest : names.dropWhile fun name => name = [] ∨ name = dot with
  | nil => simp
  | cons name rest =>
    have hne : names ≠ [] := fun hnil => by simp [hnil] at hrest
    simp [hne]

namespace Thins

theorem telling_eq {thin : List Bytes} (h : Thins names thin) : telling names = telling thin := by
  induction h with
  | nil => rfl
  | skip hskip _ ih => rw [telling, List.filter_cons_of_neg (by simp [hskip]), ← ih, telling]
  | keep name _ ih => rw [telling, telling, List.filter_cons, List.filter_cons, ← telling, ih, telling]

theorem asksForDirectory {thin : List Bytes} (h : Thins names thin)
    (hasks : FileTree.asksForDirectory thin = true) : FileTree.asksForDirectory names = true := by
  rw [asksForDirectory_iff] at hasks ⊢
  refine ⟨fun hnil => hasks.1 ?_, h.telling_eq ▸ hasks.2⟩
  subst hnil
  cases h
  rfl

end Thins

/-- A way leads to an entry also without what says nothing on it. -/
theorem Goes.of_thins {thin : List Bytes} (h : tree.Goes true links location names place)
    (hthins : Thins names thin) (hplace : place = .taken found) :
    tree.Goes true links location thin place := by
  induction h generalizing thin with
  | here links location =>
    cases hthins
    exact .here links location
  | stay hdirectory hskip _ ih =>
    cases hthins with
    | skip _ hthins => exact ih hthins hplace
    | keep _ hthins => exact .stay hdirectory hskip (ih hthins hplace)
  | up hdirectory _ ih =>
    cases hthins with
    | skip hskip => exact absurd hskip (by decide)
    | keep _ hthins => exact .up hdirectory (ih hthins hplace)
  | free => cases hplace
  | link _ hlast => cases hlast
  | @jump _ _ _ target _ _ henters hlink hlast _ ih =>
    cases hthins with
    | skip hskip => exact absurd hskip henters.telling
    | keep _ hthins =>
      exact .jump henters hlink (fun _ => rfl) (ih (hthins.append target.segments) hplace)
  | down henters hentry hlink _ ih =>
    cases hthins with
    | skip hskip => exact absurd hskip henters.telling
    | keep _ hthins => exact .down henters hentry hlink (ih hthins hplace)

theorem Resolves.of_thins {thin : List Bytes} (h : tree.Resolves links location names found)
    (hthins : Thins names thin) : tree.Resolves links location thin found := by
  induction h generalizing thin with
  | here links location =>
    cases hthins
    exact .here links location
  | stay hdirectory hskip _ ih =>
    cases hthins with
    | skip _ hthins => exact ih hthins
    | keep _ hthins => exact .stay hdirectory hskip (ih hthins)
  | up hdirectory _ ih =>
    cases hthins with
    | skip hskip => exact absurd hskip (by decide)
    | keep _ hthins => exact .up hdirectory (ih hthins)
  | @jump _ _ _ _ target _ henters hshort hlink _ ih =>
    cases hthins with
    | skip hskip => exact absurd hskip henters.telling
    | keep _ hthins => exact .jump henters hshort hlink (ih (hthins.append target.segments))
  | down henters hshort hentry hlink hroom _ ih =>
    cases hthins with
    | skip hskip => exact absurd hskip henters.telling
    | keep _ hthins =>
      exact .down henters hshort hentry hlink (fun hasks => hroom (hthins.asksForDirectory hasks))
        (ih hthins)

/-! ### Ways that turn back behind a link -/

/-- Whether a `..` of an absolute path stands behind a link. -/
def TurnsBack (tree : FileTree) (p : Path) : Prop :=
  ∃ front name rest target, p.segments = front ++ name :: rest ∧ tree.Passes [] front ∧
    tree.entryAt (name :: front.foldl Location.descend []) = some (.link target) ∧ dotDot ∈ rest

/-- A normal form has no bytes but those of the path. -/
theorem contains_normalize (hp : p.isAbsolute) (hzero : p.bytes.contains 0 = false) :
    p.normalize.bytes.contains 0 = false := by
  rw [List.contains_eq_mem, decide_eq_false_iff_not] at hzero ⊢
  rw [normalize_eq_path hp]
  have hnames : ∀ name ∈ p.location, 0 ∉ name := fun name hname hmem =>
    hzero (mem_of_mem_split (mem_segments_of_mem_location hname) hmem)
  generalize p.location = location at hnames
  cases location with
  | nil => decide
  | cons name above =>
    rw [Location.path_cons]
    intro hmem
    obtain ⟨n, hn, hmem⟩ := List.mem_flatMap.1 hmem
    rcases List.mem_cons.1 hmem with heq | hmem
    · exact absurd heq (by decide)
    · exact hnames n (List.mem_reverse.1 hn) hmem

/-- If the location of a path is found, and the path does not turn back behind a link, its normal form
    has the identity of what is found. -/
theorem identity_normalize (hp : p.isAbsolute) (h : tree.canonical p = .ok canon)
    (hturns : ¬tree.TurnsBack p) : tree.identity p.normalize = canon := by
  obtain ⟨hzero, found, hresolves, rfl⟩ := (canonical_eq_ok_iff_of_isAbsolute hp).1 h
  have hnormal := isNormal_normalize hp
  rcases hresolves.arrives .root (not_mem_segments p) with
    hfound | ⟨front, name, rest, target, fewer, hcrosses, hlinks, hjump⟩
  · have hreal := hresolves.goes.isReal .root (not_mem_segments p) rfl
    rw [normalize_eq_path hp, Path.location, ← hfound, hreal.identity_path]
  · have hup : dotDot ∉ rest := fun hmem =>
      hturns ⟨front, name, rest, target, hcrosses.split, hcrosses.passes, hcrosses.link, hmem⟩
    have hlocation : p.location.reverse =
        (front.foldl Location.descend []).reverse ++ name :: telling rest := by
      rw [Path.location, hcrosses.split, List.foldl_append, List.foldl_cons,
        Location.descend_of_isName _ hcrosses.isName, foldl_telling _ hup, List.reverse_append,
        List.reverse_reverse, List.reverse_cons, List.append_assoc]
      rfl
    -- The normal form goes over the same link, and from there over what says something.
    have henters := hcrosses.enters
    have hnormally : tree.Resolves linkLimit [] p.normalize.segments found := by
      rw [normalize_eq_path hp]
      refine resolves_path p.isProper_location ?_
      rw [hlocation, hlinks]
      refine hcrosses.isReal.resolves_reverse hcrosses.isShort.tail
        (asksForDirectory_cons henters.telling henters.ne_dotDot) ?_
      exact .jump henters hcrosses.isShort hcrosses.link
        (hjump.of_thins ((thins_telling rest).append target.segments))
    have hcanonical : tree.canonical p.normalize = .ok found.path :=
      (canonical_eq_ok_iff_of_isAbsolute hnormal.isAbsolute).2
        ⟨contains_normalize hp hzero, found, hnormally, rfl⟩
    rw [identity, hcanonical]

/-- The identity of a path in normal form is its own identity. A relative path is taken from a directory
    that can be reached without links. -/
theorem identity_identity (hreal : q.isAbsolute ∨ tree.IsReal tree.here) (hq : q.normalize = q) :
    tree.identity (tree.identity q) = tree.identity q := by
  cases hcanonical : tree.canonical q with
  | ok canon =>
    obtain ⟨found, hfound, rfl⟩ := isReal_of_canonical hreal hcanonical
    have hidentity : tree.identity q = found.path := by rw [identity, hcanonical]
    rw [hidentity, hfound.identity_path]
  | error e =>
    have hlexical : tree.identity q = q := by rw [identity, hcanonical, hq]
    rw [hlexical, hlexical]

/-- What has another identity than the normal form of a path has another one than the path, unless the
    path turns back behind a link. -/
theorem identity_ne_of_normalize (hp : p.isAbsolute) (hturns : ¬tree.TurnsBack p)
    (hq : tree.identity (tree.identity q) = tree.identity q)
    (hne : tree.identity q ≠ tree.identity p.normalize) : tree.identity q ≠ tree.identity p := by
  intro heq
  cases hcanonical : tree.canonical p with
  | ok canon =>
    refine hne (heq.trans ?_)
    rw [identity_normalize hp hcanonical hturns, identity, hcanonical]
  | error e =>
    -- Without an entry, the identity of the path is its normal form.
    have hlexical : tree.identity p = p.normalize := by rw [identity, hcanonical]
    rw [hlexical] at heq
    rw [heq] at hq hne
    exact hne hq.symm

/-- A normal path that has the identity of another path, but not that of its normal form, is only
    there if the other turns back behind a link. -/
theorem turnsBack_of_identity_eq (hp : p.isAbsolute) (hq : q.IsNormal)
    (heq : tree.identity q = tree.identity p) (hne : tree.identity q ≠ tree.identity p.normalize) :
    tree.TurnsBack p :=
  Classical.byContradiction fun hturns =>
    identity_ne_of_normalize hp hturns (identity_identity (.inl hq.isAbsolute) hq.normalize_eq) hne
      heq

end PrecompiledHeaders.FileTree
