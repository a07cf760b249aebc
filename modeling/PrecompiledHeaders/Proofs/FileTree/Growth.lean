import PrecompiledHeaders.Proofs.FileTree.Change

/-!
# Trees that grow

Writing files and making directories lets a tree grow (`FileTree.Grows`), links or not: directories
and links stay what they are, and files stay files. So what a path leads to stays too
(`FileTree.Grows.trace`), and with it the identity of what is there (`FileTree.Grows.identity`).

In a tree as there is one on a disk, with links now, all that is not the root stands in a directory
(`FileTree.IsTree`). Then a file is written into a directory, and in place of nothing but a file
(`FileTree.write_grows`).
-/

namespace PrecompiledHeaders.FileTree

open PrecompiledHeaders.Path

variable {tree tree' tree'' : FileTree} {last : Bool} {links : Nat} {location found : Location}
  {name : Bytes} {names : List Bytes} {place : Place} {entry : Entry} {p q : Path}
  {contents : Bytes}

/-- Whether all entries of a tree stand in directories, and the current directory is one. -/
structure IsTree (tree : FileTree) : Prop where
  above : ∀ name location entry, tree.entryAt (name :: location) = some entry →
    tree.entryAt location = some .directory
  here : tree.entryAt tree.here = some .directory

theorem IsTree.tail (h : tree.IsTree) (hentry : tree.entryAt location = some entry) :
    tree.entryAt location.tail = some .directory := by
  cases location with
  | nil => rfl
  | cons name above => exact h.above name above entry hentry

/-- A tree is one as on a disk if each of its entries stands in a directory. -/
theorem isTree_of_entries (h : ∀ e ∈ tree.entries, tree.entryAt e.1.tail = some .directory)
    (hhere : tree.entryAt tree.here = some .directory) : tree.IsTree := by
  refine ⟨fun name location entry hentry => ?_, hhere⟩
  exact h _ (mem_entries (List.cons_ne_nil name location) hentry)

/-- Whether a tree can turn into another when files are written and directories are made. -/
structure Grows (tree tree' : FileTree) : Prop where
  here : tree'.here = tree.here
  keeps : ∀ location entry, tree.entryAt location = some entry →
    (∀ contents, entry ≠ .file contents) → tree'.entryAt location = some entry
  files : ∀ location contents, tree.entryAt location = some (.file contents) →
    ∃ contents', tree'.entryAt location = some (.file contents')
  isTree : tree.IsTree → tree'.IsTree

/-- Whether something other than a link stands in a place where a name was free. -/
def Fills (tree : FileTree) : Place → Prop
  | .taken _ => True
  | .free directory name => ∃ entry, tree.entryAt (name :: directory) = some entry ∧
      ∀ target, entry ≠ .link target

namespace Grows

theorem refl (tree : FileTree) : Grows tree tree :=
  ⟨rfl, fun _ _ h _ => h, fun _ contents h => ⟨contents, h⟩, id⟩

theorem trans (h : Grows tree tree') (h' : Grows tree' tree'') : Grows tree tree'' where
  here := h'.here.trans h.here
  keeps location entry hentry hnot :=
    h'.keeps location entry (h.keeps location entry hentry hnot) hnot
  files location contents hfile := by
    obtain ⟨contents', hfile'⟩ := h.files location contents hfile
    exact h'.files location contents' hfile'
  isTree htree := h'.isTree (h.isTree htree)

/-! ### What a path leads to -/

theorem enters (h : Grows tree tree') (henters : tree.Enters location name) :
    tree'.Enters location name :=
  { henters with directory := h.keeps location _ henters.directory (by simp) }

/-- What is there stays there; only the contents of a file may be others. -/
theorem exists_entryAt (h : Grows tree tree') (hentry : tree.entryAt location = some entry) :
    ∃ entry', tree'.entryAt location = some entry' ∧
      (entry' = entry ∨
        ∃ contents contents', entry = .file contents ∧ entry' = .file contents') := by
  by_cases hfile : ∃ contents, entry = .file contents
  · obtain ⟨contents, rfl⟩ := hfile
    obtain ⟨contents', hentry'⟩ := h.files location contents hentry
    exact ⟨_, hentry', .inr ⟨contents, contents', rfl, rfl⟩⟩
  · exact ⟨entry, h.keeps location entry hentry fun contents heq => hfile ⟨contents, heq⟩, .inl rfl⟩

/-- A way that leads to a place leads to the entry there, also if that is new. -/
theorem goes (h : Grows tree tree') (hgoes : tree.Goes last links location names place)
    (hfills : tree'.Fills place) : tree'.Goes last links location names (.taken place.spot) := by
  induction hgoes with
  | here links location => exact .here links location
  | stay hdirectory hskip _ ih => exact .stay (h.keeps _ _ hdirectory (by simp)) hskip (ih hfills)
  | up hdirectory _ ih => exact .up (h.keeps _ _ hdirectory (by simp)) (ih hfills)
  | free links henters =>
    obtain ⟨entry, hentry, hlink⟩ := hfills
    exact .down (h.enters henters) hentry hlink (.here links _)
  | link links hlast henters hlink =>
    exact .link links hlast (h.enters henters) (h.keeps _ _ hlink (by simp))
  | jump henters hlink hlast _ ih =>
    exact .jump (h.enters henters) (h.keeps _ _ hlink (by simp)) hlast (ih hfills)
  | down henters hentry hlink _ ih =>
    obtain ⟨entry', hentry', rfl | ⟨_, _, -, rfl⟩⟩ := h.exists_entryAt hentry
    · exact .down (h.enters henters) hentry' hlink (ih hfills)
    · exact .down (h.enters henters) hentry' (by simp) (ih hfills)

theorem trace (h : Grows tree tree') (hfills : tree'.Fills place)
    (htrace : tree.trace last p = .ok place) : tree'.trace last p = .ok (.taken place.spot) := by
  obtain ⟨hzero, hne, hgoes⟩ := trace_eq_ok_iff.1 htrace
  rw [trace_eq_ok_iff, h.here]
  exact ⟨hzero, hne, h.goes hgoes hfills⟩

theorem place_eq (h : Grows tree tree') (hfills : tree'.Fills place)
    (hplace : tree.place last p = .ok place) : tree'.place last p = .ok (.taken place.spot) := by
  obtain ⟨hzero, hlength, htrace⟩ := place_eq_ok_iff.1 hplace
  exact place_eq_ok_iff.2 ⟨hzero, hlength, h.trace hfills htrace⟩

theorem hasEntry (h : Grows tree tree') (hp : tree.HasEntry p) : tree'.HasEntry p := by
  obtain ⟨found, htrace⟩ := hp
  have hfills : tree'.Fills (.taken found) := trivial
  exact ⟨found, h.trace hfills htrace⟩

theorem resolves (h : Grows tree tree') (hresolves : tree.Resolves links location names found) :
    tree'.Resolves links location names found := by
  induction hresolves with
  | here links location => exact .here links location
  | stay hdirectory hskip _ ih => exact .stay (h.keeps _ _ hdirectory (by simp)) hskip ih
  | up hdirectory _ ih => exact .up (h.keeps _ _ hdirectory (by simp)) ih
  | jump henters hshort hlink _ ih =>
    exact .jump (h.enters henters) hshort (h.keeps _ _ hlink (by simp)) ih
  | down henters hshort hentry hlink hroom _ ih =>
    obtain ⟨entry', hentry', rfl | ⟨_, _, -, rfl⟩⟩ := h.exists_entryAt hentry
    · exact .down (h.enters henters) hshort hentry' hlink hroom ih
    · exact .down (h.enters henters) hshort hentry' (by simp) hroom ih

/-- A way that led to an entry resolved before if it does so now. -/
theorem resolves_of_goes (h : Grows tree tree')
    (hgoes : tree.Goes true links location names place) (hplace : place = .taken found)
    (hresolves : tree'.Resolves links location names found) :
    tree.Resolves links location names found := by
  induction hgoes with
  | here links location =>
    cases hplace
    exact .here links _
  | stay hdirectory hskip _ ih =>
    cases hresolves with
    | stay _ _ hresolves => exact .stay hdirectory hskip (ih hplace hresolves)
    | up => exact absurd hskip (by decide)
    | jump henters | down henters => exact absurd hskip henters.telling
  | up hdirectory _ ih =>
    cases hresolves with
    | stay _ hskip => exact absurd hskip (by decide)
    | up _ hresolves => exact .up hdirectory (ih hplace hresolves)
    | jump henters | down henters => exact absurd rfl henters.ne_dotDot
  | free => cases hplace
  | link _ hlast => cases hlast
  | jump henters hlink _ _ ih =>
    have hlink' := h.keeps _ _ hlink (by simp)
    cases hresolves with
    | stay _ hskip => exact absurd hskip henters.telling
    | up => exact absurd rfl henters.ne_dotDot
    | jump _ hshort hat hresolves =>
      cases hlink'.symm.trans hat
      exact .jump henters hshort hlink (ih hplace hresolves)
    | down _ _ hat hnot => exact absurd (Option.some.inj (hat.symm.trans hlink')) (hnot _)
  | @down _ _ _ entry _ _ henters hentry hlink _ ih =>
    cases hresolves with
    | stay _ hskip => exact absurd hskip henters.telling
    | up => exact absurd rfl henters.ne_dotDot
    | jump _ _ hat =>
      -- Nothing has turned into a link.
      obtain ⟨entry', hentry', rfl | ⟨_, _, -, rfl⟩⟩ := h.exists_entryAt hentry
      · exact absurd (Option.some.inj (hentry'.symm.trans hat)) (hlink _)
      · cases hentry'.symm.trans hat
    | down _ hshort _ _ hroom hresolves =>
      exact .down henters hshort hentry hlink hroom (ih hplace hresolves)

/-- The location of what is there is found as it was before. -/
theorem canonical_iff (h : Grows tree tree') (hp : tree.HasEntry p) :
    tree'.canonical p = .ok q ↔ tree.canonical p = .ok q := by
  obtain ⟨found, htrace⟩ := hp
  obtain ⟨-, -, hgoes⟩ := trace_eq_ok_iff.1 htrace
  have hfills : tree'.Fills (.taken found) := trivial
  simp only [canonical_eq_ok_iff, h.here]
  refine and_congr_right fun _ => and_congr_right fun _ => exists_congr fun other =>
    and_congr_left fun _ => ⟨fun hresolves => ?_, h.resolves⟩
  cases (h.goes hgoes hfills).unique hresolves.goes
  exact h.resolves_of_goes hgoes rfl hresolves

/-- What is there keeps its identity. -/
theorem identity (h : Grows tree tree') (hp : tree.HasEntry p) :
    tree'.identity p = tree.identity p := by
  unfold FileTree.identity
  cases hcanonical : tree.canonical p with
  | ok q => rw [(h.canonical_iff hp).2 hcanonical]
  | error e =>
    cases hcanonical' : tree'.canonical p with
    | ok q => cases hcanonical.symm.trans ((h.canonical_iff hp).1 hcanonical')
    | error e' => rfl

/-- Without links, an identity that is an absolute path is kept, also where nothing is. -/
theorem identity_of_isAbsolute (h : Grows tree tree') (hplain : tree.IsPlain)
    (hplain' : tree'.IsPlain) (habs : (tree.identity p).isAbsolute = true) :
    tree'.identity p = tree.identity p := by
  cases hp : tree.canonical p with
  | ok q => exact h.identity (hasEntry_of_canonical hp)
  | error e =>
    -- Where nothing is, a path is its own identity, and absolute only if it was written so.
    rw [FileTree.identity, hp] at habs
    have hp := isAbsolute_of_normalize habs
    rw [FileTree.identity_of_isAbsolute hplain hp, FileTree.identity_of_isAbsolute hplain' hp]

/-- Without links, what leads to a normal path still leads there. -/
theorem identity_eq (h : Grows tree tree') (hplain : tree.IsPlain) (hplain' : tree'.IsPlain)
    (hq : q.IsNormal) (hp : tree.identity p = q) : tree'.identity p = q :=
  (h.identity_of_isAbsolute hplain hplain' (hp ▸ hq.isAbsolute)).trans hp

end Grows

/-! ### Places -/

/-- Whether a place is one of a tree: an entry, with `last` no link, or a free name in a
    directory. -/
def IsPlace (tree : FileTree) (last : Bool) : Place → Prop
  | .taken location => ∃ entry, tree.entryAt location = some entry ∧
      (last = true → ∀ target, entry ≠ .link target)
  | .free directory name => tree.entryAt directory = some .directory ∧
      tree.entryAt (name :: directory) = none

theorem Goes.isPlace (htree : tree.IsTree) (h : tree.Goes last links location names place)
    (hstart : ∃ entry, tree.entryAt location = some entry ∧ ∀ target, entry ≠ .link target) :
    tree.IsPlace last place := by
  induction h with
  | here => exact hstart.imp fun entry h => ⟨h.1, fun _ => h.2⟩
  | stay _ _ _ ih => exact ih hstart
  | up hdirectory _ ih => exact ih ⟨_, htree.tail hdirectory, by simp⟩
  | free _ henters hfree => exact ⟨henters.directory, hfree⟩
  | link _ hlast _ hlink => exact ⟨_, hlink, by simp [hlast]⟩
  | jump henters _ _ _ ih => exact ih ⟨_, entryAt_origin henters.directory _, by simp⟩
  | down _ hentry hlink _ ih => exact ih ⟨_, hentry, hlink⟩

theorem trace_of_place {last : Bool} (h : tree.place last p = .ok place) :
    tree.trace last p = .ok place :=
  (place_eq_ok_iff.1 h).2.2

theorem isPlace_of_place (htree : tree.IsTree) (h : tree.place last p = .ok place) :
    tree.IsPlace last place := by
  obtain ⟨-, -, hgoes⟩ := trace_eq_ok_iff.1 (trace_of_place h)
  exact hgoes.isPlace htree ⟨_, entryAt_origin htree.here p, by simp⟩

/-! ### Writing -/

/-- Putting a file into a directory, in place of nothing or of a file, or a new directory. -/
theorem grows_set {name : Bytes} {directory : Location}
    (hdirectory : tree.entryAt directory = some .directory)
    (hbefore : tree.entryAt (name :: directory) = none ∨
      (∃ contents, tree.entryAt (name :: directory) = some (.file contents)) ∧
        ∃ contents, entry = .file contents) :
    Grows tree (tree.set (name :: directory) entry) := by
  have hset := tree.entryAt_set (List.cons_ne_nil name directory) entry
  have hkeeps (location : Location) (other : Entry) (hother : tree.entryAt location = some other)
      (hnot : ∀ contents, other ≠ .file contents) :
      (tree.set (name :: directory) entry).entryAt location = some other := by
    rw [hset]
    split
    · next heq =>
      subst heq
      rcases hbefore with hnone | ⟨⟨contents, hfile⟩, -⟩
      · cases hnone.symm.trans hother
      · cases hfile.symm.trans hother
        exact absurd rfl (hnot contents)
    · exact hother
  refine ⟨rfl, hkeeps, fun location contents hfile => ?_, fun htree => ⟨?_, ?_⟩⟩
  · rw [hset]
    split
    · next heq =>
      subst heq
      rcases hbefore with hnone | ⟨-, contents', rfl⟩
      · cases hnone.symm.trans hfile
      · exact ⟨contents', rfl⟩
    · exact ⟨contents, hfile⟩
  · intro n location other hother
    rw [hset] at hother
    split at hother
    · next heq =>
      cases heq
      exact hkeeps _ _ hdirectory (by simp)
    · exact hkeeps _ _ (htree.above n location other hother) (by simp)
  · exact hkeeps _ _ htree.here (by simp)

theorem write_grows (htree : tree.IsTree) (h : tree.write p contents = .ok tree') :
    Grows tree tree' := by
  obtain ⟨place, hplace, hwrite⟩ := exists_place_of_write h
  have hisPlace := isPlace_of_place htree hplace
  cases place with
  | free directory name =>
    subst hwrite
    exact grows_set hisPlace.1 (.inl hisPlace.2)
  | taken location =>
    obtain ⟨entry, hentry, hlink⟩ := hisPlace
    obtain ⟨hdirectory, ⟨_, -, -, rfl⟩ | ⟨hspecial, rfl⟩⟩ := hwrite
    · exact .refl tree'
    -- What is written to is a file.
    cases entry with
    | directory => exact absurd hentry hdirectory
    | special file => exact absurd hentry (hspecial file)
    | link target => exact absurd rfl (hlink rfl target)
    | file before =>
      cases location with
      | nil => cases hentry
      | cons name above =>
        exact grows_set (htree.above name above _ hentry) (.inr ⟨⟨before, hentry⟩, contents, rfl⟩)

/-- Where something was written, something is. -/
theorem fills_of_write (hplace : tree.place true p = .ok place)
    (h : tree.write p contents = .ok tree') : tree'.Fills place := by
  obtain ⟨place', hplace', hwrite⟩ := exists_place_of_write h
  cases hplace.symm.trans hplace'
  cases place with
  | taken location => exact trivial
  | free directory name =>
    refine ⟨.file contents, ?_, by simp⟩
    rw [hwrite, tree.entryAt_set (List.cons_ne_nil name directory), if_pos rfl]

/-- What is written to a path is read from it, if it does not lead to a special file. -/
theorem read_of_write (htree : tree.IsTree) (h : tree.write p contents = .ok tree')
    (hspecial : ∀ file, tree.find? p ≠ some (.special file)) : tree'.read p = .ok contents := by
  have hgrows := write_grows htree h
  obtain ⟨place, hplace, hwrite⟩ := exists_place_of_write h
  have hfile : tree'.entryAt place.spot = some (.file contents) := by
    cases place with
    | free directory name =>
      rw [hwrite, Place.spot, tree.entryAt_set (List.cons_ne_nil name directory), if_pos rfl]
    | taken location =>
      have hne : location ≠ [] := fun hroot => hwrite.1 (hroot ▸ rfl)
      have hlocate : tree.locate p = .ok location := locate_eq_ok_iff.2 hplace
      obtain ⟨-, ⟨file, hat, -⟩ | ⟨-, heq⟩⟩ := hwrite
      · exact absurd (find?_eq_some.2 ⟨location, hlocate, hat⟩) (hspecial file)
      · rw [heq, Place.spot, tree.entryAt_set hne, if_pos rfl]
  have hlocate' : tree'.locate p = .ok place.spot :=
    locate_eq_ok_iff.2 (hgrows.place_eq (fills_of_write hplace h) hplace)
  exact read_of_find? (find?_eq_some.2 ⟨place.spot, hlocate', hfile⟩)

/-- Where something can be written, anything can. -/
theorem exists_write (h : tree.write p contents = .ok tree') (contents' : Bytes) :
    ∃ tree'', tree.write p contents' = .ok tree'' := by
  simp only [write] at h ⊢
  split at h
  · cases hbare : tree.place false (if (withoutSlashes p).bytes = [] then p else withoutSlashes p)
    all_goals
      rw [hbare] at h
      cases h
  next hbare =>
  rw [if_neg hbare]
  cases hplace : tree.place true p with
  | error e =>
    rw [hplace] at h
    cases h
  | ok place =>
    rw [hplace] at h
    cases place with
    | free directory name => exact ⟨_, rfl⟩
    | taken location =>
      simp only [bind, Except.bind] at h ⊢
      split at h
      · cases h
      · next file _ =>
        cases hwritable : file.unwritable with
        | some e =>
          rw [hwritable] at h
          cases h
        | none => exact ⟨_, rfl⟩
      · exact ⟨_, rfl⟩

/-- Whether a path leads to a file that can be written, or to where one can be made. What is written to
    a special file is not there. -/
structure IsWritable (tree : FileTree) (p : Path) : Prop where
  exists_write : ∃ contents tree', tree.write p contents = .ok tree'
  ordinary : ∀ file, tree.find? p ≠ some (.special file)

/-- What is written to a writable path is read from it. -/
theorem IsWritable.exists_read (h : tree.IsWritable p) (htree : tree.IsTree) (contents : Bytes) :
    ∃ tree', tree.write p contents = .ok tree' ∧ tree'.read p = .ok contents := by
  obtain ⟨_, _, hwrite⟩ := h.exists_write
  obtain ⟨tree', hwrite'⟩ := FileTree.exists_write hwrite contents
  exact ⟨tree', hwrite', read_of_write htree hwrite' h.ordinary⟩

theorem makeDirectory_grows (htree : tree.IsTree) (h : tree.makeDirectory p = .ok tree') :
    Grows tree tree' := by
  obtain ⟨-, directory, name, hplace, rfl⟩ := exists_place_of_makeDirectory h
  obtain ⟨hdirectory, hfree⟩ := isPlace_of_place htree hplace
  exact grows_set hdirectory (.inl hfree)

end PrecompiledHeaders.FileTree
