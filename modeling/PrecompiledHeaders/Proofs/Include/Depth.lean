import Mathlib.Data.Finset.Card
import Mathlib.Data.Finset.Image
import PrecompiledHeaders.Proofs.Include.Visits

/-!
# How many headers are open

A walk takes includes from a list. A compiler follows them in another way: it opens a header, and
the header stays open until its own includes have been followed. `Include.follow` does this with a
limit on how many headers are open at once, and gives up where there would be more.

Links may give a file any number of paths, but the paths of files are not too long, and each header
that is opened has an identity that was not visited before. So there is no need for more open headers
than there are identities of files (`FileTree.fileIdentities`), and under this limit what happens, in
order, is the walk (`Include.follow_eq_walk`). As far as the locations of headers are found, they are no
more than the files of the tree (`FileTree.length_le_card_files`).
-/

namespace PrecompiledHeaders

namespace FileTree

variable {tree : FileTree} {visited visited' headers : List Path} {p identity : Path}
  {location : Location}

/-- The locations at which files stand. -/
def files (tree : FileTree) : Finset Location :=
  (tree.entries.map (·.1)).toFinset.filter fun location =>
    (tree.entryAt location).any Entry.isFile

theorem mem_files_iff :
    location ∈ tree.files ↔ ∃ entry, tree.entryAt location = some entry ∧ entry.isFile = true := by
  rw [files, Finset.mem_filter, Option.any_eq_true]
  refine and_iff_right_of_imp ?_
  rintro ⟨entry, hentry, hfile⟩
  exact List.mem_toFinset.2 (List.mem_map_of_mem (mem_entries_of_isFile hentry hfile))

/-- The identities of the paths that lead to files. -/
def fileIdentities (tree : FileTree) : Finset Path :=
  (((Bytes.shorterThan pathLimit).map Path.mk).toFinset.filter fun p => tree.isFile p).image
    tree.identity

theorem mem_fileIdentities_iff :
    identity ∈ tree.fileIdentities ↔ ∃ p, tree.isFile p = true ∧ tree.identity p = identity := by
  rw [fileIdentities, Finset.mem_image]
  refine exists_congr fun p => and_congr_left fun _ => ?_
  rw [Finset.mem_filter]
  refine and_iff_right_of_imp fun hfile => List.mem_toFinset.2 ?_
  exact List.mem_map.2 ⟨p.bytes, Bytes.mem_shorterThan (length_lt_of_isFile hfile), rfl⟩

/-- Where the location of a file is found, its identity is the path of a location at which a file
    stands. -/
theorem exists_mem_files (h : tree.isFile p = true) (hfound : (tree.canonical p).isOk = true) :
    ∃ location ∈ tree.files, tree.locate p = .ok location ∧ tree.identity p = location.path := by
  obtain ⟨entry, hfind, hfile⟩ := (isFile_iff tree p).1 h
  obtain ⟨location, hlocate, hentry⟩ := find?_eq_some.1 hfind
  refine ⟨location, mem_files_iff.2 ⟨entry, hentry, hfile⟩, hlocate, ?_⟩
  cases hcanonical : tree.canonical p with
  | error e =>
    rw [hcanonical] at hfound
    cases hfound
  | ok canon =>
    obtain ⟨found, htrace, rfl⟩ := exists_trace_of_canonical hcanonical
    cases htrace.symm.trans (place_eq_ok_iff.1 (locate_eq_ok_iff.1 hlocate)).2.2
    rw [identity, hcanonical]

/-- There are no more headers than files, if each is a file of which the location is found, and none is
    there under two paths. -/
theorem length_le_card_files (hfile : ∀ p ∈ headers, tree.isFile p = true)
    (hfound : ∀ p ∈ headers, (tree.canonical p).isOk = true)
    (hdistinct : headers.Pairwise fun p q => tree.identity p ≠ tree.identity q) :
    headers.length ≤ tree.files.card := by
  have hnodup : (headers.map tree.identity).Nodup := List.pairwise_map.2 hdistinct
  have hsubset : (headers.map tree.identity).toFinset ⊆ tree.files.image Location.path := by
    intro identity hmem
    obtain ⟨p, hp, rfl⟩ := List.mem_map.1 (List.mem_toFinset.1 hmem)
    obtain ⟨location, hlocation, -, heq⟩ := exists_mem_files (hfile p hp) (hfound p hp)
    exact Finset.mem_image.2 ⟨location, hlocation, heq.symm⟩
  calc headers.length = (headers.map tree.identity).toFinset.card := by
        rw [List.toFinset_card_of_nodup hnodup, List.length_map]
    _ ≤ (tree.files.image Location.path).card := Finset.card_le_card hsubset
    _ ≤ tree.files.card := Finset.card_image_le

/-- In a tree that is not deep, there are no more identities of files than files. -/
theorem IsShallow.card_fileIdentities_le (h : tree.IsShallow) :
    tree.fileIdentities.card ≤ tree.files.card := by
  have hsubset : tree.fileIdentities ⊆ tree.files.image Location.path := by
    intro identity hmem
    obtain ⟨p, hfile, rfl⟩ := mem_fileIdentities_iff.1 hmem
    obtain ⟨location, hlocation, -, heq⟩ := exists_mem_files hfile (h.canonical_isOk hfile)
    exact Finset.mem_image.2 ⟨location, hlocation, heq.symm⟩
  exact (Finset.card_le_card hsubset).trans Finset.card_image_le

/-! ### Files without a visit -/

/-- The identities of files that were not visited. -/
def pending (tree : FileTree) (visited : List Path) : Finset Path :=
  tree.fileIdentities.filter (· ∉ visited)

theorem pending_subset_fileIdentities (tree : FileTree) (visited : List Path) :
    tree.pending visited ⊆ tree.fileIdentities :=
  Finset.filter_subset _ _

theorem pending_anti (h : visited ⊆ visited') : tree.pending visited' ⊆ tree.pending visited :=
  Finset.monotone_filter_right _ fun _ _ hnot hin => hnot (h hin)

/-- A visit to a file takes it off. -/
theorem card_pending_lt (h : tree.isFile p = true) (hp : tree.identity p ∉ visited) :
    (tree.pending (tree.identity p :: visited)).card < (tree.pending visited).card := by
  refine Finset.card_lt_card
    (Finset.ssubset_iff_of_subset ?_ |>.2 ⟨tree.identity p, ?_, fun hin => ?_⟩)
  · exact pending_anti (List.subset_cons_self _ _)
  · exact Finset.mem_filter.2 ⟨mem_fileIdentities_iff.2 ⟨p, h, rfl⟩, hp⟩
  · exact (Finset.mem_filter.1 hin).2 List.mem_cons_self

end FileTree

namespace Include

variable {search : Search} {tree : FileTree} {visited : List Path} {includes rest : List Include}
  {i : Include} {p q : Path}

/-! ### Walks one behind the other -/

/-- The identities that count as visited behind a walk. -/
def visitedAfter (search : Search) (tree : FileTree) (visited : List Path)
    (includes : List Include) : List Path :=
  ((headers (walk search tree visited includes)).map tree.identity).reverse ++ visited

theorem subset_visitedAfter (search : Search) (tree : FileTree) (visited : List Path)
    (includes : List Include) : visited ⊆ visitedAfter search tree visited includes :=
  List.subset_append_right _ _

theorem visitedAfter_nil (search : Search) (tree : FileTree) (visited : List Path) :
    visitedAfter search tree visited [] = visited := by
  rw [visitedAfter, walk]
  rfl

theorem visitedAfter_of_unresolved (h : i.target? search tree = none) :
    visitedAfter search tree visited (i :: rest) = visitedAfter search tree visited rest := by
  rw [visitedAfter, walk_of_unresolved h]
  rfl

theorem visitedAfter_of_visited (h : i.target? search tree = some q)
    (hv : tree.identity q ∈ visited) :
    visitedAfter search tree visited (i :: rest) = visitedAfter search tree visited rest := by
  rw [visitedAfter, walk_of_visited h hv]
  rfl

theorem visitedAfter_of_entered (h : i.target? search tree = some q)
    (hv : tree.identity q ∉ visited) : visitedAfter search tree visited (i :: rest) =
      visitedAfter search tree (tree.identity q :: visited) (tree.includes q ++ rest) := by
  rw [visitedAfter, visitedAfter, walk_of_entered h hv, headers_entered, List.map_cons,
    List.reverse_cons, List.append_assoc]
  rfl

/-- What stands behind other includes is followed with what these have visited. -/
theorem walk_append (search : Search) (tree : FileTree) (visited : List Path)
    (includes rest : List Include) : walk search tree visited (includes ++ rest) =
      walk search tree visited includes ++
        walk search tree (visitedAfter search tree visited includes) rest := by
  induction visited, includes using walk.induct search tree with
  | case1 visited =>
    rw [visitedAfter_nil, walk]
    rfl
  | case2 visited next others hnone ih =>
    rw [List.cons_append, walk_of_unresolved hnone, walk_of_unresolved hnone,
      visitedAfter_of_unresolved hnone, ih]
    rfl
  | case3 visited next others path hsome hvisited ih =>
    rw [List.cons_append, walk_of_visited hsome hvisited, walk_of_visited hsome hvisited,
      visitedAfter_of_visited hsome hvisited, ih]
  | case4 visited next others path hsome hvisited contents ih =>
    have hincludes : tree.includes path ++ (others ++ rest) =
      tree.includes path ++ others ++ rest := (List.append_assoc _ _ _).symm
    rw [List.cons_append, walk_of_entered hsome hvisited, walk_of_entered hsome hvisited,
      visitedAfter_of_entered hsome hvisited, hincludes]
    exact congrArg _ ih

theorem visitedAfter_append (search : Search) (tree : FileTree) (visited : List Path)
    (includes rest : List Include) : visitedAfter search tree visited (includes ++ rest) =
      visitedAfter search tree (visitedAfter search tree visited includes) rest := by
  simp only [visitedAfter, walk_append search tree visited includes rest, headers,
    List.filterMap_append, List.map_append, List.reverse_append, List.append_assoc]

/-! ### Open headers -/

/-- How far includes have been followed. -/
structure Progress where
  /-- The identities of the files that were visited. -/
  visited : List Path
  /-- What has happened, in order. -/
  events : List Event

/-- Follows an include, given what is done to enter a header. -/
def advance (search : Search) (tree : FileTree) (enter : Progress → Path → Option Progress)
    (progress : Progress) (next : Include) : Option Progress :=
  match next.target? search tree with
  | none => some { progress with events := progress.events ++ [.unresolved next] }
  | some path => enter progress path

/-- Enters a header, unless it was visited, and follows its includes while it is open. At most the
    given number of headers may be open; none comes out if there would be more. -/
def enter (search : Search) (tree : FileTree) : (depth : Nat) → Progress → Path → Option Progress
  | 0, progress, path => if tree.identity path ∈ progress.visited then some progress else none
  | depth + 1, progress, path =>
    if tree.identity path ∈ progress.visited then some progress
    else (tree.includes path).foldlM (advance search tree (enter search tree depth))
      ⟨tree.identity path :: progress.visited,
        progress.events ++ [.entered path ((tree.read path).toOption.getD [])]⟩

/-- Follows includes in order, with at most the given number of headers open. -/
def follow (search : Search) (tree : FileTree) (depth : Nat) (progress : Progress)
    (includes : List Include) : Option Progress :=
  includes.foldlM (advance search tree (enter search tree depth)) progress

variable {depth : Nat} {progress : Progress}

theorem follow_nil : follow search tree depth progress [] = some progress := rfl

theorem follow_of_unresolved (h : i.target? search tree = none) :
    follow search tree depth progress (i :: rest) = follow search tree depth
      { progress with events := progress.events ++ [.unresolved i] } rest := by
  rw [follow, List.foldlM_cons, advance, h]
  rfl

theorem follow_of_visited (h : i.target? search tree = some q)
    (hv : tree.identity q ∈ progress.visited) : follow search tree depth progress (i :: rest) =
      follow search tree depth progress rest := by
  have henter : enter search tree depth progress q = some progress := by
    cases depth <;> rw [enter, if_pos hv]
  rw [follow, List.foldlM_cons, advance, h]
  simp only [henter]
  rfl

theorem follow_of_entered (h : i.target? search tree = some q)
    (hv : tree.identity q ∉ progress.visited) :
    follow search tree (depth + 1) progress (i :: rest) =
      (follow search tree depth ⟨tree.identity q :: progress.visited,
        progress.events ++ [.entered q ((tree.read q).toOption.getD [])]⟩ (tree.includes q)).bind
          fun progress => follow search tree (depth + 1) progress rest := by
  rw [follow, List.foldlM_cons, advance, h]
  simp only [enter, if_neg hv]
  rfl

/-- With as many headers open as there are files without a visit, nothing is given up, and what
    happens is the walk. -/
theorem follow_eq_walk (search : Search) (tree : FileTree) {depth : Nat} {visited : List Path}
    (h : (tree.pending visited).card ≤ depth) (events : List Event) (includes : List Include) :
    follow search tree depth ⟨visited, events⟩ includes =
      some ⟨visitedAfter search tree visited includes,
        events ++ walk search tree visited includes⟩ := by
  -- The limit goes down where a header is opened, the list of includes everywhere else.
  induction depth using Nat.strongRecOn generalizing visited events includes with
  | ind depth ihdepth =>
    induction includes generalizing visited events with
    | nil => rw [follow_nil, visitedAfter_nil, walk, List.append_nil]
    | cons next rest ih =>
      cases htarget : next.target? search tree with
      | none =>
        rw [follow_of_unresolved htarget, ih h, visitedAfter_of_unresolved htarget,
          walk_of_unresolved htarget, List.append_assoc]
        rfl
      | some path =>
        by_cases hvisited : tree.identity path ∈ visited
        · rw [follow_of_visited htarget hvisited, ih h, visitedAfter_of_visited htarget hvisited,
            walk_of_visited htarget hvisited]
        · have hfewer := FileTree.card_pending_lt (Search.isFile_of_resolve? htarget) hvisited
          obtain ⟨depth, rfl⟩ : ∃ below, depth = below + 1 := ⟨depth - 1, by omega⟩
          have hheader : (tree.pending (tree.identity path :: visited)).card ≤ depth := by omega
          have hrest : (tree.pending (visitedAfter search tree (tree.identity path :: visited)
              (tree.includes path))).card ≤ depth + 1 :=
            (Finset.card_le_card (FileTree.pending_anti (subset_visitedAfter _ _ _ _))).trans
              (Nat.le_succ_of_le hheader)
          rw [follow_of_entered htarget hvisited, ihdepth depth (Nat.lt_succ_self depth) hheader,
            Option.bind_some, ih hrest, visitedAfter_of_entered htarget hvisited,
            walk_of_entered htarget hvisited, visitedAfter_append, walk_append]
          simp only [List.append_assoc, List.cons_append, List.nil_append]

end Include

end PrecompiledHeaders
