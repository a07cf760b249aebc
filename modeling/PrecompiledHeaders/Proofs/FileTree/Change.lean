import PrecompiledHeaders.FileTree.Change
import PrecompiledHeaders.Proofs.FileTree.Ways

/-!
# Trees that change

Writing files at some locations, and making directories, leaves all other files alone
(`FileTree.Evolves`): what was read at an absolute path, however it is written, is read there
again (`FileTree.Evolves.read`), and no other file comes up (`FileTree.Evolves.isFile_iff`). This
is what writing a file (`FileTree.write_eq_ok`) and making directories
(`FileTree.makeDirectories_evolves`) do. Where a name is free in a directory, a file can be written
(`FileTree.write_of_free`).
-/

/-- Results that are the same as long as one of them is no error. -/
theorem Except.toOption_congr {ε α : Type} {a b : Except ε α}
    (h : ∀ value, a = .ok value ↔ b = .ok value) : a.toOption = b.toOption := by
  cases a with
  | ok value => rw [(h value).1 rfl]
  | error e =>
    cases b with
    | ok value => cases (h value).2 rfl
    | error e' => rfl

namespace PrecompiledHeaders.FileTree

open PrecompiledHeaders.Path

variable {tree tree' tree'' : FileTree} {written written' : Location → Prop} {location : Location}
  {names : List Bytes} {name : Bytes} {entry : Entry} {p directory : Path} {contents : Bytes}

/-- Whether a tree can turn into another when files are written at some locations, and directories
    are made. -/
structure Evolves (written : Location → Prop) (tree tree' : FileTree) : Prop where
  keeps : ∀ location, ¬written location → ∀ entry, entry ≠ .directory →
    (tree'.entryAt location = some entry ↔ tree.entryAt location = some entry)
  directories : ∀ location, tree.entryAt location = some .directory →
    tree'.entryAt location = some .directory
  files : ∀ location contents, tree.entryAt location = some (.file contents) →
    ∃ contents', tree'.entryAt location = some (.file contents')
  specials : ∀ location file, tree.entryAt location = some (.special file) →
    tree'.entryAt location = some (.special file)
  isSound : tree.IsSound → tree'.IsSound

namespace Evolves

theorem refl (written : Location → Prop) (tree : FileTree) : Evolves written tree tree :=
  ⟨fun _ _ _ _ => Iff.rfl, fun _ => id, fun _ contents h => ⟨contents, h⟩, fun _ _ => id, id⟩

theorem trans (h : Evolves written tree tree') (h' : Evolves written tree' tree'') :
    Evolves written tree tree'' where
  keeps location hnot entry hentry :=
    (h'.keeps location hnot entry hentry).trans (h.keeps location hnot entry hentry)
  directories location hdirectory := h'.directories location (h.directories location hdirectory)
  files location contents hfile := by
    obtain ⟨contents', hfile'⟩ := h.files location contents hfile
    exact h'.files location contents' hfile'
  specials location file hspecial := h'.specials location file (h.specials location file hspecial)
  isSound hsound := h'.isSound (h.isSound hsound)

theorem mono (h : Evolves written tree tree')
    (hle : ∀ location, written location → written' location) : Evolves written' tree tree' :=
  { h with keeps := fun location hnot => h.keeps location (mt (hle location) hnot) }

theorem passes (h : Evolves written tree tree') (hpasses : tree.Passes location names) :
    tree'.Passes location names := by
  induction names generalizing location with
  | nil => exact h.directories location hpasses
  | cons name rest ih => exact ⟨h.directories location hpasses.1, ih hpasses.2⟩

/-- What an absolute path leads to stays there, however the path is written. -/
theorem find? (h : Evolves written tree tree') (hsound : tree.IsSound) (hp : p.isAbsolute)
    (hnot : ¬written p.location) (hentry : entry ≠ .directory)
    (hfind : tree.find? p = some entry) : tree'.find? p = some entry := by
  obtain ⟨hfits, hpasses, hat⟩ := (find?_eq_some_iff hsound hp).1 hfind
  exact (find?_eq_some_iff (h.isSound hsound) hp).2
    ⟨hfits, h.passes hpasses, (h.keeps _ hnot entry hentry).2 hat⟩

theorem read (h : Evolves written tree tree') (hsound : tree.IsSound) (hp : p.isAbsolute)
    (hnot : ¬written p.location) (hread : tree.read p = .ok contents) :
    tree'.read p = .ok contents := by
  obtain ⟨entry, hfind, hentry⟩ := (read_eq_ok_iff tree p contents).1 hread
  have hfind' := h.find? hsound hp hnot (Entry.ne_directory_of_read hentry) hfind
  exact (read_eq_ok_iff tree' p contents).2 ⟨entry, hfind', hentry⟩

/-- At normal paths nothing comes up but directories. -/
theorem find?_iff (h : Evolves written tree tree') (hsound : tree.IsSound) (hp : p.IsNormal)
    (hnot : ¬written p.location) (hentry : entry ≠ .directory) :
    tree'.find? p = some entry ↔ tree.find? p = some entry := by
  rw [(h.isSound hsound).find?_eq_some_iff hp, hsound.find?_eq_some_iff hp,
    h.keeps _ hnot entry hentry]

theorem isFile_iff (h : Evolves written tree tree') (hsound : tree.IsSound) (hp : p.IsNormal)
    (hnot : ¬written p.location) : tree'.isFile p = tree.isFile p := by
  rw [Bool.eq_iff_iff, FileTree.isFile_iff, FileTree.isFile_iff]
  refine exists_congr fun entry => and_congr_left fun hfile => ?_
  exact h.find?_iff hsound hp hnot (Entry.ne_directory_of_isFile hfile)

/-- What is a file stays one, whatever is written. -/
theorem isFile (h : Evolves written tree tree') (hsound : tree.IsSound) (hp : p.IsNormal)
    (hfile : tree.isFile p = true) : tree'.isFile p = true := by
  obtain ⟨entry, hfind, hentry⟩ := (FileTree.isFile_iff tree p).1 hfile
  obtain ⟨hfits, hat⟩ := (hsound.find?_eq_some_iff hp).1 hfind
  have hafter : ∃ entry', tree'.entryAt p.location = some entry' ∧ entry'.isFile = true := by
    cases entry with
    | file contents =>
      obtain ⟨contents', hat'⟩ := h.files _ contents hat
      exact ⟨_, hat', rfl⟩
    | special file => exact ⟨_, h.specials _ file hat, hentry⟩
    | directory | link => cases hentry
  obtain ⟨entry', hat', hentry'⟩ := hafter
  exact (FileTree.isFile_iff tree' p).2
    ⟨entry', ((h.isSound hsound).find?_eq_some_iff hp).2 ⟨hfits, hat'⟩, hentry'⟩

/-- What is read at a normal path is what was read there. -/
theorem read_iff (h : Evolves written tree tree') (hsound : tree.IsSound) (hp : p.IsNormal)
    (hnot : ¬written p.location) : tree'.read p = .ok contents ↔ tree.read p = .ok contents := by
  rw [read_eq_ok_iff, read_eq_ok_iff]
  refine exists_congr fun entry => and_congr_left fun hread => ?_
  exact h.find?_iff hsound hp hnot (Entry.ne_directory_of_read hread)

theorem toOption_read (h : Evolves written tree tree') (hsound : tree.IsSound) (hp : p.IsNormal)
    (hnot : ¬written p.location) : (tree'.read p).toOption = (tree.read p).toOption :=
  Except.toOption_congr fun _ => h.read_iff hsound hp hnot

end Evolves

/-! ### Single entries -/

theorem lookup_filter_ne {other : Location} (hne : other ≠ location)
    (entries : List (Location × Entry)) :
    (entries.filter (·.1 ≠ location)).lookup other = entries.lookup other := by
  induction entries with
  | nil => rfl
  | cons first entries ih =>
    obtain ⟨place, entry⟩ := first
    by_cases hplace : place = location
    · have hother : (other == place) = false := beq_false_of_ne (hplace ▸ hne)
      rw [List.filter_cons_of_neg (by simpa using hplace), ih, List.lookup_cons, hother]
    · rw [List.filter_cons_of_pos (by simpa using hplace), List.lookup_cons, List.lookup_cons, ih]

theorem entryAt_set (tree : FileTree) {location : Location} (hne : location ≠ []) (entry : Entry)
    (other : Location) : (tree.set location entry).entryAt other =
      if other = location then some entry else tree.entryAt other := by
  have hlookup (hother : other ≠ []) : (tree.set location entry).entryAt other =
      (tree.set location entry).entries.lookup other := by
    cases other with
    | nil => exact absurd rfl hother
    | cons name above => rfl
  by_cases hother : other = location
  · rw [if_pos hother, hlookup (hother ▸ hne), hother]
    exact List.lookup_cons_self
  · rw [if_neg hother]
    cases other with
    | nil => rfl
    | cons name above =>
      have hfalse : (name :: above == location) = false := beq_false_of_ne hother
      rw [hlookup (List.cons_ne_nil name above), set, List.lookup_cons, hfalse,
        lookup_filter_ne hother]
      rfl

/-- Putting a file or a directory into a directory, but no file in place of a directory. -/
theorem evolves_set {name : Bytes} {directory : Location}
    (hdirectory : tree.entryAt directory = some .directory)
    (hkeep : tree.entryAt (name :: directory) = some .directory → entry = .directory)
    (hfile : ∀ contents, tree.entryAt (name :: directory) = some (.file contents) →
      ∃ contents', entry = .file contents')
    (hbefore : ∀ file, tree.entryAt (name :: directory) ≠ some (.special file))
    (hlink : ∀ target, entry ≠ .link target) (hspecial : ∀ file, entry ≠ .special file) :
    Evolves (· = name :: directory) tree (tree.set (name :: directory) entry) := by
  have hset := tree.entryAt_set (List.cons_ne_nil name directory) entry
  have hdirectories (location : Location) (h : tree.entryAt location = some .directory) :
      (tree.set (name :: directory) entry).entryAt location = some .directory := by
    rw [hset]
    split
    · next heq => rw [hkeep (by rw [← heq, h])]
    · exact h
  refine ⟨fun location hnot other _ => by rw [hset, if_neg hnot], hdirectories,
    fun location contents h => ?_, fun location file h => ?_, fun hsound => ⟨?_, ?_, ?_⟩⟩
  · rw [hset]
    split
    · next heq =>
      obtain ⟨contents', hentry⟩ := hfile contents (heq ▸ h)
      exact ⟨contents', by rw [hentry]⟩
    · exact ⟨contents, h⟩
  · have hother : location ≠ name :: directory := fun heq => hbefore file (heq ▸ h)
    rw [hset, if_neg hother, h]
  · intro location target
    rw [hset]
    split
    · exact fun heq => hlink target (Option.some.inj heq)
    · exact hsound.isPlain location target
  · intro n location other hother
    rw [hset] at hother
    split at hother
    · next heq =>
      cases heq
      exact hdirectories _ hdirectory
    · exact hdirectories _ (hsound.above n location other hother)
  · intro location file hother
    rw [hset] at hother
    split at hother
    · exact absurd (Option.some.inj hother) (hspecial file)
    · exact hsound.null location file hother

/-- A new directory changes nothing about files. -/
theorem evolves_set_directory {name : Bytes} {directory : Location}
    (hdirectory : tree.entryAt directory = some .directory)
    (hfree : tree.entryAt (name :: directory) = none) :
    Evolves written tree (tree.set (name :: directory) .directory) := by
  have hset : Evolves (· = name :: directory) tree (tree.set (name :: directory) .directory) :=
    evolves_set hdirectory (fun _ => rfl) (by simp [hfree]) (by simp [hfree]) (by simp) (by simp)
  refine { hset with keeps := fun location _ entry hentry => ?_ }
  rw [tree.entryAt_set (List.cons_ne_nil name directory)]
  split
  · next heq => simp [heq, hfree, Ne.symm hentry]
  · rfl

/-! ### Writing -/

/-- Only a path that leads somewhere can be written. -/
theorem exists_place_of_write (h : tree.write p contents = .ok tree') : ∃ place,
    tree.place true p = .ok place ∧
      match place with
      | .free directory name => tree' = tree.set (name :: directory) (.file contents)
      | .taken location => tree.entryAt location ≠ some .directory ∧
        ((∃ file, tree.entryAt location = some (.special file) ∧ file.unwritable = none ∧
            tree' = tree) ∨
          (∀ file, tree.entryAt location ≠ some (.special file)) ∧
            tree' = tree.set location (.file contents)) := by
  simp only [write] at h
  split at h
  · -- A path that ends with a slash names no file.
    cases hbare : tree.place false (if (withoutSlashes p).bytes = [] then p else withoutSlashes p)
    all_goals
      rw [hbare] at h
      cases h
  cases hplace : tree.place true p with
  | error e =>
    rw [hplace] at h
    cases h
  | ok place =>
    rw [hplace] at h
    refine ⟨place, rfl, ?_⟩
    cases place with
    | free directory name =>
      cases h
      rfl
    | taken location =>
      simp only [bind, Except.bind] at h
      split at h
      · cases h
      · next file hspecial =>
        split at h
        · cases h
        · next hwritable =>
          cases h
          exact ⟨by simp [hspecial], .inl ⟨file, hspecial, hwritable, rfl⟩⟩
      · next hdirectory hspecial =>
        cases h
        exact ⟨hdirectory, .inr ⟨hspecial, rfl⟩⟩

/-- A file is written into a directory, and not in place of one. -/
theorem exists_set_of_write (hsound : tree.IsSound) (hp : p.isAbsolute)
    (hnull : p.location ≠ locationOf ["dev", "null"]) (h : tree.write p contents = .ok tree') :
    p.Fits ∧ tree.PassesTo p ∧ ∃ name directory, p.location = name :: directory ∧
      tree.entryAt directory = some .directory ∧
      tree.entryAt (name :: directory) ≠ some .directory ∧
      (∀ file, tree.entryAt (name :: directory) ≠ some (.special file)) ∧
      tree' = tree.set (name :: directory) (.file contents) := by
  obtain ⟨place, hplace, hwrite⟩ := exists_place_of_write h
  obtain ⟨hfits, hpasses, hlocation⟩ := place_eq_ok hsound hp hplace
  refine ⟨hfits, hpasses, ?_⟩
  rcases hlocation with ⟨⟨entry, hentry⟩, rfl⟩ |
    ⟨name, directory, hlocation, hdirectory, hfree, rfl⟩
  · obtain ⟨hat, ⟨file, hspecial, hwritable, -⟩ | ⟨hspecial, heq⟩⟩ := hwrite
    · exact absurd (hsound.null _ file hspecial hwritable) hnull
    cases hl : p.location with
    | nil =>
      rw [hl] at hat
      exact absurd rfl hat
    | cons name directory =>
      rw [hl] at hat hspecial hentry
      exact ⟨name, directory, rfl, hsound.above name directory entry hentry, hat, hspecial,
        hl ▸ heq⟩
  · exact ⟨name, directory, hlocation, hdirectory, by simp [hfree], by simp [hfree], hwrite⟩

theorem evolves_set_file {directory : Location}
    (hdirectory : tree.entryAt directory = some .directory)
    (hat : tree.entryAt (name :: directory) ≠ some .directory)
    (hspecial : ∀ file, tree.entryAt (name :: directory) ≠ some (.special file)) :
    Evolves (· = name :: directory) tree (tree.set (name :: directory) (.file contents)) :=
  evolves_set hdirectory (fun heq => absurd heq hat) (by simp) hspecial (by simp) (by simp)

/-- A file that was written is found again. -/
theorem write_eq_ok (hsound : tree.IsSound) (hp : p.isAbsolute)
    (hnull : p.location ≠ locationOf ["dev", "null"]) (h : tree.write p contents = .ok tree') :
    Evolves (· = p.location) tree tree' ∧ tree'.find? p = some (.file contents) := by
  obtain ⟨hfits, hpasses, name, directory, hlocation, hdirectory, hat, hspecial, rfl⟩ :=
    exists_set_of_write hsound hp hnull h
  have hevolves : Evolves (· = name :: directory) tree
      (tree.set (name :: directory) (.file contents)) := evolves_set_file hdirectory hat hspecial
  rw [hlocation]
  refine ⟨hevolves, (find?_eq_some_iff (hevolves.isSound hsound) hp).2
    ⟨hfits, hevolves.passes hpasses, ?_⟩⟩
  rw [hlocation, tree.entryAt_set (List.cons_ne_nil name directory), if_pos rfl]

/-- A name that is free in a directory can be written to, however the path is written. -/
theorem write_of_free (hplain : tree.IsPlain) (hdirectory : directory.isAbsolute)
    (hname : IsName name) (hfits : (directory.join ⟨name⟩).Fits)
    (hpasses : tree.PassesTo (directory.join ⟨name⟩))
    (hfree : tree.entryAt (name :: directory.location) = none) (contents : Bytes) :
    tree.write (directory.join ⟨name⟩) contents =
      .ok (tree.set (name :: directory.location) (.file contents)) := by
  obtain ⟨way, hway, hsegments⟩ := directory.exists_segments_join
  have hsegments := hsegments name hname.not_mem
  have hplace : tree.place true (directory.join ⟨name⟩) = .ok (.free directory.location name) := by
    rw [PassesTo, hsegments, List.dropLast_concat] at hpasses
    rw [place_eq_ok_iff_of_isAbsolute (isAbsolute_join hdirectory ⟨name⟩), hsegments, ← hway]
    refine ⟨hfits.zero, hfits.length, ?_⟩
    exact goes_of_free hplain hpasses (hsegments ▸ hfits.names) hname (hway ▸ hfree)
  -- The path ends with the name, and so with no slash.
  have hbare : withoutSlashes (directory.join ⟨name⟩) = directory.join ⟨name⟩ := by
    obtain ⟨front, b, hb⟩ := List.eq_nil_or_concat name |>.resolve_left hname.ne_nil
    have hne : b ≠ separator := fun h => hname.not_mem (by simp [hb, h])
    have hend : ∃ bytes, directory.join ⟨name⟩ = ⟨bytes ++ [b]⟩ := by
      rw [join_of_not_mem hname.not_mem, hb]
      split
      · exact ⟨directory.bytes ++ front, by simp⟩
      · exact ⟨directory.bytes ++ separator :: front, by simp⟩
    obtain ⟨bytes, hbytes⟩ := hend
    rw [hbytes, withoutSlashes]
    simp [hne]
  simp only [write, hbare, ne_eq, not_true_eq_false, if_false, bind, Except.bind, hplace]

/-! ### Making directories -/

theorem isAbsolute_withoutSlashes (hp : p.isAbsolute) (hne : (withoutSlashes p).bytes ≠ []) :
    (withoutSlashes p).isAbsolute := by
  have hleading : (withoutSlashes p).bytes <+: p.bytes := by
    have hsuffix := p.bytes.reverse.dropWhile_suffix fun b : UInt8 => decide (b = separator)
    rw [← List.reverse_prefix] at hsuffix
    simpa [withoutSlashes] using hsuffix
  obtain ⟨b, bytes, hbytes⟩ := List.exists_cons_of_ne_nil hne
  rw [isAbsolute, hbytes]
  rw [hbytes] at hleading
  obtain ⟨behind, hbehind⟩ := hleading
  rw [isAbsolute, ← hbehind] at hp
  exact hp

theorem isAbsolute_of_parent? {above : Path} (hp : p.isAbsolute) (h : p.parent? = some above) :
    above.isAbsolute := by
  have habove := isAbsolute_parent hp
  rwa [h] at habove

/-- A directory is made where a name is free. -/
theorem exists_place_of_makeDirectory (h : tree.makeDirectory p = .ok tree') :
    (withoutSlashes p).bytes ≠ [] ∧ ∃ directory name,
      tree.place false (withoutSlashes p) = .ok (.free directory name) ∧
        tree' = tree.set (name :: directory) .directory := by
  unfold makeDirectory at h
  split at h
  · cases h
  split at h
  · cases h
  next hne =>
  refine ⟨hne, ?_⟩
  cases hplace : tree.place false (withoutSlashes p) with
  | error e =>
    rw [make, hplace] at h
    cases h
  | ok place =>
    rw [make, hplace] at h
    cases place with
    | taken location => cases h
    | free directory name =>
      cases h
      exact ⟨directory, name, rfl, rfl⟩

theorem makeDirectory_evolves (hsound : tree.IsSound) (hp : p.isAbsolute)
    (h : tree.makeDirectory p = .ok tree') : Evolves written tree tree' := by
  obtain ⟨hne, directory, name, hplace, rfl⟩ := exists_place_of_makeDirectory h
  obtain ⟨-, -, ⟨-, hplace⟩ | ⟨name', directory', -, hdirectory, hfree, hplace⟩⟩ :=
    place_eq_ok hsound (isAbsolute_withoutSlashes hp hne) hplace
  · cases hplace
  · cases hplace
    exact evolves_set_directory hdirectory hfree

/-- Making a directory and those above it is a chain of single ones that are made. -/
theorem makeDirectories_chain (wanted : Path → Prop) (leads : FileTree → FileTree → Prop)
    (hrefl : ∀ tree, leads tree tree)
    (htrans : ∀ tree tree' tree'', leads tree tree' → leads tree' tree'' → leads tree tree'')
    (habove : ∀ p above : Path, wanted p → p.parent? = some above → wanted above)
    (hmake : ∀ tree tree' p, wanted p → tree.makeDirectory p = .ok tree' → leads tree tree')
    (hp : wanted p) : leads tree (tree.makeDirectories p).2 := by
  induction p using makeDirectories.induct tree with
  | case1 p hnone =>
    rw [makeDirectories, if_pos hnone]
    exact hrefl tree
  | case2 p hsome hmissing hnone =>
    rw [makeDirectories, if_neg hsome]
    simp only [hmissing]
    split
    · exact hrefl tree
    · next hparent => cases hnone.symm.trans hparent
  | case3 p hsome hmissing above hparent made hmade ih =>
    have hmore : leads tree made := by
      have hrec := ih (habove p above hp hparent)
      rwa [hmade] at hrec
    rw [makeDirectories, if_neg hsome]
    simp only [hmissing]
    split
    · exact hrefl tree
    · next above' hparent' =>
      cases hparent.symm.trans hparent'
      rw [hmade]
      refine htrans tree made _ hmore ?_
      -- In the end the directory itself is made, unless it is there already.
      dsimp only
      split
      · next hself => exact hmake made _ p hp hself
      · split <;> exact hrefl made
  | case4 p hsome hmissing above hparent hfailed ih =>
    rw [makeDirectories, if_neg hsome]
    simp only [hmissing]
    split
    · exact hrefl tree
    · next above' hparent' =>
      cases hparent.symm.trans hparent'
      split
      · next made hmade => exact absurd hmade (hfailed made)
      · exact ih (habove p above hp hparent)
  | case5 p hsome hmissing =>
    rw [makeDirectories, if_neg hsome]
    split
    · next herror => exact absurd herror hmissing
    · dsimp only
      split
      · next hself => exact hmake tree _ p hp hself
      · split <;> exact hrefl tree

theorem makeDirectories_evolves (hsound : tree.IsSound) (hp : p.isAbsolute) :
    Evolves written tree (tree.makeDirectories p).2 :=
  makeDirectories_chain (·.isAbsolute = true)
    (fun tree tree' => tree.IsSound → Evolves written tree tree') (fun tree _ => .refl written tree)
    (fun _ _ _ h h' hsound => (h hsound).trans (h' ((h hsound).isSound hsound)))
    (fun _ _ hp => isAbsolute_of_parent? hp)
    (fun _ _ _ hp hmake hsound => makeDirectory_evolves hsound hp hmake) hp hsound

end PrecompiledHeaders.FileTree
