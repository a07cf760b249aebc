import PrecompiledHeaders.Compiler.Settings
import PrecompiledHeaders.FileTree.Access
import PrecompiledHeaders.Include.Directive

/-!
# Following includes

Which headers a unit includes, directly or through other headers. An include is *resolved* by
looking at the places where the header may be, in order (`Search.resolve?`). The walk
(`Include.walk`) takes includes one after the other; a header that is entered for the first time
puts its own includes in front of those that are still to be followed. No file is entered twice,
whatever its path: the walk remembers the identities of the files it has been at.

The walk ends because a path that leads to a file is not too long, so there are only so many
identities of files. With each header that is entered there is one less to come, and in between the
list of includes gets shorter.
-/

namespace PrecompiledHeaders

/-- All strings of fewer bytes than a number. -/
def Bytes.shorterThan : Nat → List Bytes
  | 0 => []
  | n + 1 => [] :: (shorterThan n).flatMap fun rest =>
      (List.range UInt8.size).map fun b => UInt8.ofNat b :: rest

theorem Bytes.mem_shorterThan {bytes : Bytes} {n : Nat} (h : bytes.length < n) :
    bytes ∈ shorterThan n := by
  induction bytes generalizing n with
  | nil =>
    cases n with
    | zero => cases h
    | succ n => exact List.mem_cons_self
  | cons b rest ih =>
    cases n with
    | zero => cases h
    | succ n =>
      refine List.mem_cons_of_mem _ (List.mem_flatMap.2 ⟨rest, ih (Nat.lt_of_succ_lt_succ h), ?_⟩)
      exact List.mem_map.2 ⟨b.toNat, List.mem_range.2 b.toNat_lt, by rw [UInt8.ofNat_toNat]⟩

namespace FileTree

/-- The identities of paths that are not too long, as far as they are not in a list. -/
def unvisited (tree : FileTree) (visited : List Path) : List Path :=
  ((Bytes.shorterThan pathLimit).map fun bytes => tree.identity ⟨bytes⟩).filter (· ∉ visited)

/-- A path that leads to a file is not too long. -/
theorem length_lt_of_isFile {tree : FileTree} {p : Path} (h : tree.isFile p) :
    p.bytes.length < pathLimit := by
  refine Nat.lt_of_not_le fun hlong => ?_
  have hplace : ∃ e, tree.place true p = .error e := by
    unfold place
    split
    · exact ⟨_, rfl⟩
    · exact ⟨_, rfl⟩
  obtain ⟨e, hplace⟩ := hplace
  rw [isFile, find?, locate, hplace] at h
  cases h

/-- A visit to a file leaves fewer identities without one. -/
theorem length_unvisited_lt {tree : FileTree} {visited : List Path} {p : Path}
    (h : tree.isFile p) (hp : tree.identity p ∉ visited) :
    (tree.unvisited (tree.identity p :: visited)).length < (tree.unvisited visited).length := by
  have hmem : tree.identity p ∈ tree.unvisited visited :=
    List.mem_filter.2 ⟨List.mem_map.2 ⟨p.bytes, Bytes.mem_shorterThan (length_lt_of_isFile h), rfl⟩,
      by simpa using hp⟩
  have hless : tree.unvisited (tree.identity p :: visited) =
      (tree.unvisited visited).filter (· ≠ tree.identity p) := by
    simp only [unvisited, List.filter_filter]
    exact List.filter_congr fun q _ => by simp [List.mem_cons, not_or]
  rw [hless]
  refine Nat.lt_of_le_of_ne (List.length_filter_le _ _) fun heq => ?_
  have hall := List.length_filter_eq_length_iff.1 heq _ hmem
  simp at hall

end FileTree

/-- Where headers are looked for. -/
structure Search where
  /-- The directories for names in quotes, after the directory of the includer. -/
  quoted : List Path
  /-- The directories for names in angle brackets. -/
  angled : List Path
deriving DecidableEq, Repr

namespace Search

/-- The places that settings name. -/
def ofSettings (settings : Settings) : Search :=
  let angled := settings.includeDirectories ++ settings.systemDirectories ++
    settings.afterDirectories
  ⟨settings.quoteDirectories ++ angled, angled⟩

/-- The paths at which a header may be, in order. -/
def candidates (search : Search) (directory : Path) (directive : Directive) : List Path :=
  let spelled : Path := ⟨Utf8.encode directive.spelling⟩
  if spelled.isAbsolute then [spelled.normalize]
  else
    let directories := match directive.quotation with
      | .quoted => directory :: search.quoted
      | .angled => search.angled
    directories.map fun d => (d.join spelled).normalize

/-- The path of a header: the first candidate that is a file. -/
def resolve? (search : Search) (tree : FileTree) (directory : Path) (directive : Directive) :
    Option Path :=
  (search.candidates directory directive).find? tree.isFile

theorem isFile_of_resolve? {search : Search} {tree : FileTree} {directory p : Path}
    {directive : Directive} (h : search.resolve? tree directory directive = some p) :
    tree.isFile p :=
  List.find?_some h

end Search

/-- An include that is to be followed. -/
structure Include where
  /-- The file with the directive. -/
  includer : Path
  /-- The directory that names in quotes are taken from first. -/
  directory : Path
  /-- The directive. -/
  directive : Directive
deriving DecidableEq, Repr

/-- Something that happens when includes are followed. -/
inductive Event
  /-- A header with the given contents is entered. -/
  | entered (path : Path) (contents : Bytes)
  /-- An include leads to no file. -/
  | unresolved (missing : Include)
deriving DecidableEq, Repr

namespace Include

/-- The includes of a file. -/
def ofFile (file : Path) (contents : Bytes) : List Include :=
  (directives (Utf8.decodeLossy contents)).map fun directive =>
    ⟨file, file.parent?.getD Path.root, directive⟩

/-- Follows includes in order, `visited` being the identities of files that were visited. -/
def walk (search : Search) (tree : FileTree) (visited : List Path) : List Include → List Event
  | [] => []
  | next :: rest =>
    match _h : search.resolve? tree next.directory next.directive with
    | none => .unresolved next :: walk search tree visited rest
    | some path =>
      if _hv : tree.identity path ∈ visited then walk search tree visited rest
      else
        let contents := (tree.read path).toOption.getD []
        .entered path contents ::
          walk search tree (tree.identity path :: visited) (ofFile path contents ++ rest)
termination_by includes => ((tree.unvisited visited).length, includes.length)
decreasing_by
  · exact .right _ (Nat.lt_succ_self _)
  · exact .right _ (Nat.lt_succ_self _)
  · exact .left _ _ (FileTree.length_unvisited_lt (Search.isFile_of_resolve? _h) _hv)

end Include

/-- The header that is entered, if one is. -/
def Event.header? : Event → Option (Path × Bytes)
  | .entered path contents => some (path, contents)
  | .unresolved _ => none

/-- The include that leads to no file, if it is that. -/
def Event.missing? : Event → Option Include
  | .entered _ _ => none
  | .unresolved missing => some missing

end PrecompiledHeaders
