import PrecompiledHeaders.Proofs.FileTree.Growth
import PrecompiledHeaders.Proofs.Path.Join

/-!
# Trees in which something is made

When a file is written and directories are made, a tree changes only where certain paths lead, which
may be anywhere, as they may go over links (`FileTree.Gains`). Another path may come to lead
somewhere, over a directory that was made, or to what was written. If it does neither, it is an old
one (`FileTree.IsOld`): then what is read at the path is what was read there before
(`FileTree.Gains.read_iff`).
-/

namespace PrecompiledHeaders

/-! ### Directories above a path -/

namespace Path

variable {p q r : Path}

theorem ancestors_of_parent? (h : p.parent? = some q) : p.ancestors = p :: q.ancestors := by
  rw [ancestors]
  split
  · next hnone => cases hnone.symm.trans h
  · next other hother =>
    cases hother.symm.trans h
    rfl

theorem mem_ancestors_self (p : Path) : p ∈ p.ancestors := by
  rw [ancestors]
  exact List.mem_cons_self

/-- A parent of what is above a path is above it, too. -/
theorem mem_ancestors_of_parent? (hq : q ∈ p.ancestors) (h : q.parent? = some r) :
    r ∈ p.ancestors := by
  induction p using ancestors.induct with
  | case1 p ih =>
    cases hparent : p.parent? with
    | none =>
      rw [ancestors] at hq
      split at hq
      · rw [List.mem_singleton.1 hq] at h
        cases hparent.symm.trans h
      · next hsome => cases hparent.symm.trans hsome
    | some above =>
      rw [ancestors_of_parent? hparent, List.mem_cons] at hq ⊢
      rcases hq with rfl | hq
      · cases hparent.symm.trans h
        exact .inr (mem_ancestors_self _)
      · exact .inr (ih above hparent hq)

end Path

namespace FileTree

open PrecompiledHeaders.Path

variable {tree tree' tree'' : FileTree} {files files' directories directories' : Path → Prop}
  {links : Nat} {location : Location} {names : List Bytes} {place : Place} {entry : Entry}
  {p q : Path} {contents : Bytes}

/-- A parent does not end with a slash, unless it is the root. -/
theorem withoutSlashes_of_parent? (h : q.parent? = some p) :
    (withoutSlashes p).bytes = [] ∨ withoutSlashes p = p := by
  have hfront : (withoutSlashes ⟨q.front⟩).bytes = [] ∨ withoutSlashes ⟨q.front⟩ = ⟨q.front⟩ := by
    unfold Path.front
    split
    · exact .inl (by decide)
    · split
      · exact .inr (by decide)
      · exact .inl rfl
  simp only [parent?] at h
  split at h
  · split at h
    · cases h
      exact .inl rfl
    · cases h
  next last below hbody =>
  cases h
  cases htrailing : trailing below with
  | nil => simpa [PrecompiledHeaders.join] using hfront
  | cons s rest =>
    -- The last piece says something, so it ends with another byte.
    have hpiece : s ∈ split separator (q.bytes.drop q.front.length) := by
      have hbelow : s ∈ below := mem_of_mem_trailing (htrailing ▸ List.mem_cons_self)
      exact List.mem_reverse.1 (mem_of_mem_trailing (hbody ▸ List.mem_cons_of_mem _ hbelow))
    have hne : s ≠ [] := (not_or.1 (tells_of_trailing htrailing)).1
    obtain ⟨front, b, hs⟩ := List.eq_nil_or_concat s |>.resolve_left hne
    rw [List.concat_eq_append] at hs
    subst hs
    have hb : b ≠ separator := fun heq => not_mem_of_mem_split hpiece (by simp [heq])
    obtain ⟨others, hothers⟩ := exists_join_concat separator rest.reverse (front ++ [b])
    refine .inr ?_
    rw [List.reverse_cons, hothers, ← List.append_assoc, ← List.append_assoc, withoutSlashes]
    simp [hb]

/-! ### What paths lead to -/

/-- A free name is found, whether a link at the end is to be followed or not. -/
theorem Goes.true_of_free (h : tree.Goes false links location names place)
    (hplace : ∀ found, place ≠ .taken found) : tree.Goes true links location names place := by
  induction h with
  | here _ location => exact absurd rfl (hplace location)
  | stay hdirectory hskip _ ih => exact .stay hdirectory hskip (ih hplace)
  | up hdirectory _ ih => exact .up hdirectory (ih hplace)
  | free links henters hfree => exact .free links henters hfree
  | link => exact absurd rfl (hplace _)
  | jump henters hlink _ _ ih => exact .jump henters hlink (fun _ => rfl) (ih hplace)
  | down henters hentry hlink _ ih => exact .down henters hentry hlink (ih hplace)

theorem trace_true_of_free {directory : Location} {name : Bytes}
    (h : tree.place false p = .ok (.free directory name)) :
    tree.trace true p = .ok (.free directory name) := by
  obtain ⟨hzero, hne, hgoes⟩ := trace_eq_ok_iff.1 (trace_of_place h)
  exact trace_eq_ok_iff.2 ⟨hzero, hne, hgoes.true_of_free (by simp)⟩

namespace Grows

/-- What is there stays there; only the contents of files may be others. -/
theorem exists_find? (h : Grows tree tree') (hfind : tree.find? p = some entry) :
    ∃ entry', tree'.find? p = some entry' ∧
      (entry' = entry ∨
        ∃ contents contents', entry = .file contents ∧ entry' = .file contents') := by
  obtain ⟨location, hlocate, hentry⟩ := find?_eq_some.1 hfind
  have hfills : tree'.Fills (.taken location) := trivial
  have hlocate' : tree'.locate p = .ok location :=
    locate_eq_ok_iff.2 (h.place_eq hfills (locate_eq_ok_iff.1 hlocate))
  obtain ⟨entry', hentry', hsame⟩ := h.exists_entryAt hentry
  exact ⟨entry', find?_eq_some.2 ⟨location, hlocate', hentry'⟩, hsame⟩

theorem isFile (h : Grows tree tree') (hfile : tree.isFile p = true) : tree'.isFile p = true := by
  obtain ⟨entry, hfind, hentry⟩ := (isFile_iff tree p).1 hfile
  obtain ⟨_, hfind', rfl | ⟨_, contents', -, rfl⟩⟩ := h.exists_find? hfind
  · exact (isFile_iff tree' p).2 ⟨_, hfind', hentry⟩
  · exact isFile_of_find? hfind'

end Grows

/-! ### Making files and directories -/

/-- Whether one of some paths leads to a location. -/
def Leads (tree : FileTree) (paths : Path → Prop) (location : Location) : Prop :=
  ∃ p, paths p ∧ tree.trace true p = .ok (.taken location)

theorem Leads.of_grows {paths paths' : Path → Prop} (h : tree.Leads paths location)
    (hgrows : Grows tree tree') (hle : ∀ p, paths p → paths' p) : tree'.Leads paths' location := by
  obtain ⟨p, hp, htrace⟩ := h
  have hfills : tree'.Fills (.taken location) := trivial
  exact ⟨p, hle p hp, hgrows.trace hfills htrace⟩

/-- Whether a tree can turn into another when files are written where certain paths lead, and
    directories are made where others do. -/
structure Gains (files directories : Path → Prop) (tree tree' : FileTree) : Prop where
  grows : Grows tree tree'
  /-- What is new is a file or a directory. -/
  fresh : ∀ location entry, tree'.entryAt location = some entry →
    tree.entryAt location = some entry ∨
      (∃ contents, entry = .file contents) ∧ tree'.Leads files location ∨
        entry = .directory ∧ tree'.Leads directories location

namespace Gains

theorem refl (files directories : Path → Prop) (tree : FileTree) :
    Gains files directories tree tree :=
  ⟨.refl tree, fun _ _ => .inl⟩

theorem trans (h : Gains files directories tree tree')
    (h' : Gains files directories tree' tree'') : Gains files directories tree tree'' where
  grows := h.grows.trans h'.grows
  fresh location entry hentry := by
    rcases h'.fresh location entry hentry with hentry | hnew
    · exact (h.fresh location entry hentry).imp_right (.imp
        (.imp_right fun hleads => hleads.of_grows h'.grows fun _ => id)
        (.imp_right fun hleads => hleads.of_grows h'.grows fun _ => id))
    · exact .inr hnew

theorem mono (h : Gains files directories tree tree') (hfiles : ∀ p, files p → files' p)
    (hdirectories : ∀ p, directories p → directories' p) :
    Gains files' directories' tree tree' where
  grows := h.grows
  fresh location entry hentry := (h.fresh location entry hentry).imp_right (.imp
    (.imp_right fun hleads => hleads.of_grows (.refl _) hfiles)
    (.imp_right fun hleads => hleads.of_grows (.refl _) hdirectories))

end Gains

theorem write_gains (htree : tree.IsTree) (h : tree.write p contents = .ok tree') :
    Gains (· = p) directories tree tree' := by
  have hgrows := write_grows htree h
  obtain ⟨place, hplace, hwrite⟩ := exists_place_of_write h
  have htrace (hfills : tree'.Fills place) : tree'.trace true p = .ok (.taken place.spot) :=
    hgrows.trace hfills (trace_of_place hplace)
  refine ⟨hgrows, fun location entry hentry => ?_⟩
  -- If something else stands at a location now, it is the file that was written.
  have hset (hspot : place.spot ≠ []) (hfills : tree'.Fills place)
      (heq : tree' = tree.set place.spot (.file contents)) :
      tree.entryAt location = some entry ∨
        (∃ contents, entry = .file contents) ∧ tree'.Leads (· = p) location := by
    have hentry' := hentry
    rw [heq, tree.entryAt_set hspot] at hentry'
    split at hentry'
    · next hlocation =>
      cases hentry'
      exact .inr ⟨⟨contents, rfl⟩, p, rfl, hlocation ▸ htrace hfills⟩
    · exact .inl hentry'
  cases place with
  | free directory name =>
    refine (hset (List.cons_ne_nil name directory) ⟨.file contents, ?_, by simp⟩ hwrite).imp_right
      .inl
    rw [hwrite, tree.entryAt_set (List.cons_ne_nil name directory), if_pos rfl]
  | taken spot =>
    obtain ⟨hdirectory, ⟨_, -, -, rfl⟩ | ⟨-, heq⟩⟩ := hwrite
    · exact .inl hentry
    · have hspot : spot ≠ [] := fun heq => hdirectory (heq ▸ rfl)
      exact (hset hspot trivial heq).imp_right .inl

theorem makeDirectory_gains (htree : tree.IsTree)
    (hp : (withoutSlashes p).bytes = [] ∨ withoutSlashes p = p)
    (h : tree.makeDirectory p = .ok tree') : Gains files (· = p) tree tree' := by
  have hgrows := makeDirectory_grows htree h
  obtain ⟨hne, directory, name, hplace, rfl⟩ := exists_place_of_makeDirectory h
  rw [hp.resolve_left hne] at hplace
  have hset := tree.entryAt_set (List.cons_ne_nil name directory) .directory
  have hfills : (tree.set (name :: directory) .directory).Fills (.free directory name) :=
    ⟨.directory, by rw [hset, if_pos rfl], by simp⟩
  refine ⟨hgrows, fun location entry hentry => ?_⟩
  rw [hset] at hentry
  split at hentry
  · next hlocation =>
    subst hlocation
    cases hentry
    exact .inr (.inr ⟨rfl, p, rfl, hgrows.trace hfills (trace_true_of_free hplace)⟩)
  · exact .inl hentry

theorem makeDirectories_gains (htree : tree.IsTree)
    (hp : (withoutSlashes p).bytes = [] ∨ withoutSlashes p = p) :
    Gains files (· ∈ p.ancestors) tree (tree.makeDirectories p).2 :=
  makeDirectories_chain
    (fun q => q ∈ p.ancestors ∧ ((withoutSlashes q).bytes = [] ∨ withoutSlashes q = q))
    (fun tree tree' => tree.IsTree → Gains files (· ∈ p.ancestors) tree tree')
    (fun tree _ => .refl _ _ tree)
    (fun _ _ _ h h' htree => (h htree).trans (h' ((h htree).grows.isTree htree)))
    (fun _ _ hq h => ⟨mem_ancestors_of_parent? hq.1 h, withoutSlashes_of_parent? h⟩)
    (fun _ _ _ hq hmake htree => (makeDirectory_gains htree hq.2 hmake).mono (fun _ => id)
      fun _ heq => heq ▸ hq.1)
    ⟨mem_ancestors_self p, hp⟩ htree

/-! ### Old paths -/

/-- Whether a path that leads to something other than a directory leads where it led in another tree,
    and where none of some other paths lead. -/
def IsOld (files : Path → Prop) (tree tree' : FileTree) (p : Path) : Prop :=
  ∀ location entry, tree'.locate p = .ok location → tree'.entryAt location = some entry →
    entry ≠ .directory → tree.trace true p = .ok (.taken location) ∧
      ∀ q, files q → tree'.trace true q ≠ .ok (.taken location)

namespace Gains

/-- At an old path there is what was there. -/
theorem find?_iff (h : Gains files directories tree tree') (hold : IsOld files tree tree' p)
    (hne : entry ≠ .directory) : tree'.find? p = some entry ↔ tree.find? p = some entry := by
  have hbefore {other : Entry} (hother : other ≠ .directory) (hfind : tree'.find? p = some other) :
      tree.find? p = some other := by
    obtain ⟨location, hlocate, hat⟩ := find?_eq_some.1 hfind
    obtain ⟨htrace, hapart⟩ := hold location other hlocate hat hother
    obtain ⟨hzero, hlength, -⟩ := place_eq_ok_iff.1 (locate_eq_ok_iff.1 hlocate)
    have hlocate' : tree.locate p = .ok location :=
      locate_eq_ok_iff.2 (place_eq_ok_iff.2 ⟨hzero, hlength, htrace⟩)
    rcases h.fresh location other hat with hentry | ⟨-, q, hq, hmade⟩ | ⟨heq, -⟩
    · exact find?_eq_some.2 ⟨location, hlocate', hentry⟩
    · exact absurd hmade (hapart q hq)
    · exact absurd heq hother
  refine ⟨hbefore hne, fun hfind => ?_⟩
  obtain ⟨entry', hfind', hsame⟩ := h.grows.exists_find? hfind
  have hne' : entry' ≠ .directory := by
    rcases hsame with rfl | ⟨_, _, -, rfl⟩
    · exact hne
    · simp
  cases (hbefore hne' hfind').symm.trans hfind
  exact hfind'

theorem read_iff (h : Gains files directories tree tree') (hold : IsOld files tree tree' p) :
    tree'.read p = .ok contents ↔ tree.read p = .ok contents := by
  rw [read_eq_ok_iff, read_eq_ok_iff]
  exact exists_congr fun entry => and_congr_left fun hread =>
    h.find?_iff hold (Entry.ne_directory_of_read hread)

theorem toOption_read (h : Gains files directories tree tree') (hold : IsOld files tree tree' p) :
    (tree'.read p).toOption = (tree.read p).toOption :=
  Except.toOption_congr fun _ => h.read_iff hold

theorem isFile_iff (h : Gains files directories tree tree') (hold : IsOld files tree tree' p) :
    tree'.isFile p = true ↔ tree.isFile p = true := by
  rw [FileTree.isFile_iff, FileTree.isFile_iff]
  exact exists_congr fun entry => and_congr_left fun hfile =>
    h.find?_iff hold (Entry.ne_directory_of_isFile hfile)

/-- What is at an old path keeps its identity. -/
theorem identity_eq (h : Gains files directories tree tree') (hold : IsOld files tree tree' p)
    (hfind : tree'.find? p = some entry) (hne : entry ≠ .directory) :
    tree'.identity p = tree.identity p :=
  h.grows.identity (hasEntry_of_find? ((h.find?_iff hold hne).1 hfind))

theorem identity_eq_of_isFile (h : Gains files directories tree tree')
    (hold : IsOld files tree tree' p) (hfile : tree'.isFile p = true) :
    tree'.identity p = tree.identity p := by
  obtain ⟨entry, hfind, hentry⟩ := (FileTree.isFile_iff tree' p).1 hfile
  exact h.identity_eq hold hfind (Entry.ne_directory_of_isFile hentry)

theorem identity_eq_of_read (h : Gains files directories tree tree')
    (hold : IsOld files tree tree' p) (hread : tree'.read p = .ok contents) :
    tree'.identity p = tree.identity p := by
  obtain ⟨entry, hfind, hentry⟩ := (read_eq_ok_iff tree' p contents).1 hread
  exact h.identity_eq hold hfind (Entry.ne_directory_of_read hentry)

end Gains

/-! ### Trees without links -/

/-- Without links, an absolute path leads to its own location. -/
theorem Leads.exists_location_eq (h : tree.Leads files location) (hplain : tree.IsPlain)
    (hfiles : ∀ q, files q → q.isAbsolute = true) : ∃ q, files q ∧ q.location = location := by
  obtain ⟨q, hq, htrace⟩ := h
  exact ⟨q, hq, (trace_spot hplain (hfiles q hq) htrace).symm⟩

namespace Gains

theorem isSound (h : Gains files directories tree tree') (htree : tree.IsTree)
    (hsound : tree.IsSound) : tree'.IsSound where
  isPlain location target hlink := by
    rcases h.fresh location _ hlink with hlink | ⟨⟨contents, heq⟩, -⟩ | ⟨heq, -⟩
    · exact hsound.isPlain location target hlink
    · cases heq
    · cases heq
  above := (h.grows.isTree htree).above
  null location file hspecial hwritable := by
    rcases h.fresh location _ hspecial with hspecial | ⟨⟨contents, heq⟩, -⟩ | ⟨heq, -⟩
    · exact hsound.null location file hspecial hwritable
    · cases heq
    · cases heq

/-- Without links, a tree evolves at the locations of the paths that are written to. -/
theorem evolves (h : Gains files directories tree tree') (htree : tree.IsTree)
    (hsound : tree.IsSound) (hfiles : ∀ q, files q → q.isAbsolute = true) :
    Evolves (fun location => ∃ q, files q ∧ q.location = location) tree tree' where
  keeps location hnot entry hdirectory := by
    have hplain := (h.isSound htree hsound).isPlain
    have hbefore {other : Entry} (hother : tree'.entryAt location = some other)
        (hne : other ≠ .directory) : tree.entryAt location = some other := by
      rcases h.fresh location other hother with hother | ⟨-, hleads⟩ | ⟨heq, -⟩
      · exact hother
      · exact absurd (hleads.exists_location_eq hplain hfiles) hnot
      · exact absurd heq hne
    refine ⟨fun hentry => hbefore hentry hdirectory, fun hentry => ?_⟩
    by_cases hfile : ∃ contents, entry = .file contents
    · obtain ⟨contents, rfl⟩ := hfile
      obtain ⟨contents', hafter⟩ := h.grows.files location contents hentry
      rw [hafter, ← hbefore hafter (by simp), hentry]
    · exact h.grows.keeps location entry hentry fun contents heq => hfile ⟨contents, heq⟩
  directories location hdirectory := h.grows.keeps location _ hdirectory (by simp)
  files := h.grows.files
  specials location file hspecial := h.grows.keeps location _ hspecial (by simp)
  isSound := h.isSound htree

/-- Without links, a normal path is old if nothing is written to its location. -/
theorem isOld (h : Gains files directories tree tree') (htree : tree.IsTree)
    (hsound : tree.IsSound) (hfiles : ∀ q, files q → q.isAbsolute = true) (hp : p.IsNormal)
    (hnot : ∀ q, files q → q.location ≠ p.location) : IsOld files tree tree' p := by
  intro location entry hlocate hentry hne
  have hplain := (h.isSound htree hsound).isPlain
  have htrace := trace_of_place (locate_eq_ok_iff.1 hlocate)
  have hlocation : location = p.location := trace_spot hplain hp.isAbsolute htrace
  have hapart : ¬∃ q, files q ∧ q.location = p.location := fun ⟨q, hq, heq⟩ => hnot q hq heq
  obtain ⟨found, hlocate', -⟩ := find?_eq_some.1 (((h.evolves htree hsound hfiles).find?_iff
    hsound hp hapart hne).1 (find?_eq_some.2 ⟨location, hlocate, hentry⟩))
  have htrace' := trace_of_place (locate_eq_ok_iff.1 hlocate')
  have hfound : found = p.location := trace_spot hsound.isPlain hp.isAbsolute htrace'
  refine ⟨by rw [htrace', hfound, hlocation], fun q hq htrace => hnot q hq ?_⟩
  exact (trace_spot hplain (hfiles q hq) htrace).symm.trans hlocation

end Gains

end FileTree

end PrecompiledHeaders
