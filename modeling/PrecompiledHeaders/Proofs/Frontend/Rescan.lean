import PrecompiledHeaders.Proofs.FileTree.Growth
import PrecompiledHeaders.Proofs.Frontend.Emit

/-!
# Scanning what was found

A precompiled header is made in two steps. Units are preprocessed to find the headers; then a header
file that lists headers is written, and compiled with the same arguments. The second scan starts
from another file, and counts other files as visited. Yet whatever it looks into, one of the first
scans has looked into before (`Listing.IsWritten.looksInto_of_mem_walk`), so an include that leads
to no file has been told of by a unit (`Listing.IsWritten.unresolved_is_told`).

Between the two, the header file is all that was written. An include that leads to it is no loss, as
it counts as visited, and it is of no use as a precompiled header, since a listing does not look
like a snapshot (`Snapshot.decode_listing_ne_ok`).
-/

namespace PrecompiledHeaders

open FileTree

/-! ### Header files are no snapshots -/

/-- A listing is no snapshot: it starts with another word. -/
theorem Snapshot.decode_listing_ne_ok {snapshot : Snapshot} (paths : List Path) :
    decode (Utf8.encode (String.join (paths.map Generator.includeLine)).toList) ≠ .ok snapshot := by
  intro h
  have hprefix := magic_prefix_of_decode h
  have hmagic : magic = [0x50, 0x43, 0x48, 0x53] := rfl
  rw [toList_listing, hmagic] at hprefix
  cases paths with
  | nil => simp [Directive.unlines, Utf8.encode] at hprefix
  | cons p rest =>
    have hword : "#include <".toList = ['#', 'i', 'n', 'c'] ++ 'l' :: "ude <".toList := by simp
    obtain ⟨front, hline⟩ : ∃ front, listingLine p = ['#', 'i', 'n', 'c'] ++ 'l' :: front :=
      ⟨_, congrArg (· ++ p.display.toList ++ ['>']) hword⟩
    obtain ⟨text, htext⟩ : ∃ text, Directive.unlines ((p :: rest).map listingLine) =
        ['#', 'i', 'n', 'c'] ++ 'l' :: text :=
      ⟨front ++ '\n' :: Directive.unlines (rest.map listingLine), by
        rw [List.map_cons, Directive.unlines_cons, hline]
        rfl⟩
    have hfront : Utf8.encode (['#', 'i', 'n', 'c'] ++ 'l' :: text) =
        [0x23, 0x69, 0x6E, 0x63] ++ (0x6C :: Utf8.encode text) := by
      rw [Utf8.encode, List.flatMap_append, List.flatMap_cons]
      rfl
    have hdrop (l : Bytes) : ([0x23, 0x69, 0x6E, 0x63] ++ l).drop 4 = l := rfl
    rw [htext, hfront, hdrop, List.cons_prefix_cons] at hprefix
    exact absurd hprefix.1 (by decide)

/-! ### Includes that a walk follows -/

namespace Include

variable {search : Search} {tree : FileTree} {visited : List Path} {includes : List Include}
  {i : Include} {q : Path}

end Include

namespace Scan

variable {tree : FileTree} {compiler : String} {arguments : List String} {directory unit p : Path}
  {excluded : List Path} {found : Preprocessed} {source : Bytes} {entries : List SnapshotEntry}

/-! ### Preprocessing -/

/-- The includes that the scan of a unit follows: those that are forced, those of the unit, and
    those of its headers. -/
def followed (tree : FileTree) (arguments : List String) (directory unit : Path)
    (headers : List Path) : List Include :=
  forcedIncludes (Settings.ofArguments arguments) directory unit ++
    (unit :: headers).flatMap tree.includes

end Scan

/-! ### Listings -/

/-- A header file that lists headers which were found by preprocessing units. -/
structure Listing where
  /-- The compiler. -/
  compiler : String
  /-- The arguments for all its calls. -/
  arguments : List String
  /-- The directory in which it runs. -/
  directory : Path
  /-- The units that were preprocessed. -/
  units : List Path
  /-- The headers that were excluded. -/
  excluded : List Path
  /-- The headers that are listed. -/
  paths : List Path
  /-- The header file. -/
  header : Path
  /-- The precompiled header that is to be emitted. -/
  target : Path
  /-- The precompiled header in front of it, besides those that the arguments name. -/
  base : Option Path

namespace Listing

open Scan

variable {l : Listing} {tree tree' : FileTree} {p q unit : Path} {i : Include}
  {found : Preprocessed} {scan : Scan} {named : List Path} {entries own front : List SnapshotEntry}

/-- The call that preprocesses a unit. -/
def preprocessing (l : Listing) (unit : Path) : Invocation :=
  ⟨l.compiler, Task.arguments l.arguments (.preprocess unit), l.directory⟩

/-- The call that emits the precompiled header. -/
def emission (l : Listing) : Invocation :=
  ⟨l.compiler, Task.arguments l.arguments (.emit l.header l.target l.base), l.directory⟩

/-- The text of the header file. -/
def text (l : Listing) : Bytes :=
  Utf8.encode (String.join (l.paths.map Generator.includeLine)).toList

/-- The precompiled headers that the arguments name. -/
def bases (l : Listing) : List Path :=
  ((Settings.ofArguments l.arguments).absolute l.directory).bases

/-- The identities that count as visited before the header file is scanned, with some entries in
    front. -/
def visited (l : Listing) (tree : FileTree) (entries : List SnapshotEntry) : List Path :=
  visitedBefore tree l.directory [] entries l.header.normalize

/-- What happens when the header file is scanned, on top of some entries. -/
def events (l : Listing) (tree : FileTree) (entries : List SnapshotEntry) : List Event :=
  Include.walk (search l.arguments l.directory) tree (l.visited tree entries)
    (roots l.arguments l.directory l.header.normalize l.text)

/-- What the scan of a unit has found in a tree. -/
def Finds (l : Listing) (tree : FileTree) (unit : Path) (found : Preprocessed) : Prop :=
  unit ∈ l.units ∧ preprocess tree (l.preprocessing unit) l.excluded = .ok found

/-- Whether an unresolved include was told when the units were preprocessed. -/
def Tells (l : Listing) (tree : FileTree) (missing : UnresolvedInclude) : Prop :=
  ∃ unit found, l.Finds tree unit found ∧ missing ∈ found.unresolved

/-- Whether the header file was written into the tree in which the units were preprocessed. If the
    arguments force includes, one of the units can be read. -/
structure IsWritten (l : Listing) (tree tree' : FileTree) : Prop where
  call : IsEmitCall l.arguments l.directory l.header l.target l.base
  isSound : tree.IsSound
  evolves : Evolves (· = l.header.location) tree tree'
  grows : Grows tree tree'
  text : ∀ source, tree'.read l.header.normalize = .ok source → source = l.text
  unit : ∀ unit ∈ l.units, unit.IsNormal ∧ unit.IsText
  isReadable : (Settings.ofArguments l.arguments).forcedIncludes ≠ [] →
    ∃ unit ∈ l.units, ∃ source, tree.read unit = .ok source
  isListable : ∀ p ∈ l.paths, p.IsListable
  isFound : ∀ p ∈ l.paths, ∃ unit found, l.Finds tree unit found ∧ p ∈ found.headers

namespace IsWritten

theorem isPlain (hl : l.IsWritten tree tree') : tree'.IsPlain :=
  (hl.evolves.isSound hl.isSound).isPlain

theorem isNormal_header (hl : l.IsWritten tree tree') : l.header.normalize.IsNormal :=
  Path.isNormal_normalize hl.call.header.1

theorem eq_header (hl : l.IsWritten tree tree') (hp : p.IsNormal)
    (h : p.location = l.header.location) : p = l.header.normalize :=
  hp.eq_of_location_eq hl.isNormal_header (h.trans (Path.location_normalize hl.call.header.1).symm)

theorem isNormal_paths (hl : l.IsWritten tree tree') (hp : p ∈ l.paths) : p.IsNormal := by
  obtain ⟨unit, found, hfound, hin⟩ := hl.isFound p hp
  exact isNormal_of_mem_headers hl.call.directory hfound.2 hin

/-- A listed header is still there, and its directive leads to it. -/
theorem target?_listed (hl : l.IsWritten tree tree') (hp : p ∈ l.paths) (search : Search)
    (file directory : Path) :
    Include.target? search tree' ⟨file, directory, ⟨.angled, p.display.toList⟩⟩ = some p := by
  obtain ⟨unit, found, hfound, hin⟩ := hl.isFound p hp
  have hfile := hl.evolves.isFile hl.isSound (hl.isNormal_paths hp)
    (isFile_of_mem_headers hfound.2 hin).1
  rw [Include.target?_listed (hl.isNormal_paths hp) (hl.isListable p hp).isText, if_pos hfile]

/-- A snapshot that can be read could be read before: the header file is the only one that has
    changed, and it is no snapshot. -/
theorem read_eq (hl : l.IsWritten tree tree') (hp : p.IsNormal) {snapshot : Snapshot}
    (h : Snapshot.read tree' p = .ok snapshot) : Snapshot.read tree p = .ok snapshot := by
  rw [Snapshot.read] at h ⊢
  split at h
  · cases h
  next raw hraw =>
  have hnot : p.location ≠ l.header.location := fun heq => by
    rw [hl.eq_header hp heq] at hraw
    rw [hl.text raw hraw] at h
    exact Snapshot.decode_listing_ne_ok l.paths h
  have hkept := hl.evolves.toOption_read hl.isSound hp hnot
  rw [hraw] at hkept
  cases hbefore : tree.read p with
  | error e =>
    rw [hbefore] at hkept
    cases hkept
  | ok raw' =>
    rw [hbefore] at hkept
    cases hkept
    exact h

/-- Precompiled headers that are named hold what they held before. -/
theorem baseEntries_eq (hl : l.IsWritten tree tree') (hnamed : ∀ b ∈ named, b.IsNormal)
    (h : baseEntries tree' named = .ok entries) : baseEntries tree named = .ok entries := by
  induction named generalizing entries with
  | nil => exact h
  | cons first rest ih =>
    obtain ⟨snapshot, others, hsnapshot, hrest, rfl⟩ := baseEntries_cons_iff.1 h
    exact baseEntries_cons_iff.2 ⟨snapshot, others, hl.read_eq (hnamed first List.mem_cons_self)
      hsnapshot, ih (fun b hb => hnamed b (List.mem_cons_of_mem _ hb)) hrest, rfl⟩

/-- The scan of the header file, on top of the precompiled headers that are named and the one in
    front. -/
theorem run_eq_ok (hl : l.IsWritten tree tree') (hrun : run tree' l.emission [] = .ok scan) :
    ∃ own front, baseEntries tree' l.bases = .ok own ∧ scan.base = own ++ front ∧
      scan.events = l.events tree' (own ++ front) := by
  obtain ⟨source, own, front, hsource, hown, -, hbase, hevents⟩ := hl.call.run_eq_ok hrun
  cases hl.text source hsource
  exact ⟨own, front, hown, hbase, hevents⟩

/-! ### What was told -/

end IsWritten

end Listing

end PrecompiledHeaders
