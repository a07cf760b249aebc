import PrecompiledHeaders.Proofs.Include.Reach

/-!
# What a walk comes across

In any tree, links or not, a walk enters no file twice and none that was visited before
(`Include.pairwise_identity_walk`, `Include.not_visited_of_mem_walk`). Of the includes that lead to
no file it tells each once: those among the includes it starts from, and those of the headers it
enters (`Include.missing_walk_perm`).
-/

namespace PrecompiledHeaders.Include

variable {search : Search} {tree : FileTree} {visited : List Path} {includes rest : List Include}
  {i : Include} {p q : Path} {contents : Bytes} {events : List Event}

theorem headers_unresolved (i : Include) (events : List Event) :
    headers (.unresolved i :: events) = headers events := rfl

theorem headers_entered (p : Path) (contents : Bytes) (events : List Event) :
    headers (.entered p contents :: events) = p :: headers events := rfl

/-- What was visited is not entered. -/
theorem not_visited_of_mem_walk (h : p ∈ headers (walk search tree visited includes)) :
    tree.identity p ∉ visited := by
  induction visited, includes using walk.induct search tree with
  | case1 visited =>
    rw [walk] at h
    exact absurd h List.not_mem_nil
  | case2 visited next rest hnone ih =>
    rw [walk_of_unresolved hnone] at h
    exact ih h
  | case3 visited next rest path hsome hvisited ih =>
    rw [walk_of_visited hsome hvisited] at h
    exact ih h
  | case4 visited next rest path hsome hvisited contents ih =>
    rw [walk_of_entered hsome hvisited] at h
    rcases List.mem_cons.1 h with rfl | h
    · exact hvisited
    · exact fun hin => ih h (List.mem_cons_of_mem _ hin)

/-- To a walk it only matters which files count as visited, not in which order or how often. -/
theorem walk_congr (search : Search) (tree : FileTree) (includes : List Include)
    {visited visited' : List Path} (h : ∀ p, p ∈ visited ↔ p ∈ visited') :
    walk search tree visited includes = walk search tree visited' includes := by
  revert h visited'
  induction visited, includes using walk.induct search tree with
  | case1 visited =>
    intro visited' h
    rw [walk, walk]
  | case2 visited next rest hnone ih =>
    intro visited' h
    rw [walk_of_unresolved hnone, walk_of_unresolved hnone, ih h]
  | case3 visited next rest path hsome hvisited ih =>
    intro visited' h
    rw [walk_of_visited hsome hvisited, walk_of_visited hsome ((h _).1 hvisited), ih h]
  | case4 visited next rest path hsome hvisited contents =>
    rename_i ih
    intro visited' h
    have hmore : ∀ p, p ∈ tree.identity path :: visited ↔ p ∈ tree.identity path :: visited' :=
      fun p => by rw [List.mem_cons, List.mem_cons, h]
    rw [walk_of_entered hsome hvisited, walk_of_entered hsome (mt (h _).2 hvisited)]
    exact congrArg _ (ih hmore)

/-- No file is entered twice, whatever its path. -/
theorem pairwise_identity_walk (search : Search) (tree : FileTree) (visited : List Path)
    (includes : List Include) : (headers (walk search tree visited includes)).Pairwise
      fun p q => tree.identity p ≠ tree.identity q := by
  induction visited, includes using walk.induct search tree with
  | case1 visited =>
    rw [walk]
    exact .nil
  | case2 visited next rest hnone ih =>
    rw [walk_of_unresolved hnone]
    exact ih
  | case3 visited next rest path hsome hvisited ih =>
    rw [walk_of_visited hsome hvisited]
    exact ih
  | case4 visited next rest path hsome hvisited contents ih =>
    rw [walk_of_entered hsome hvisited, headers_entered]
    -- From the header on, its identity counts as visited.
    refine .cons (fun q hq heq => ?_) ih
    exact not_visited_of_mem_walk hq (heq ▸ List.mem_cons_self)

/-- Headers without includes are entered one after the other, if their identities differ. -/
theorem walk_of_leaves {paths : List Path}
    (htarget : includes.map (target? search tree) = paths.map some)
    (hleaf : ∀ p ∈ paths, tree.includes p = []) (hdistinct : (paths.map tree.identity).Nodup)
    (hnew : ∀ p ∈ paths, tree.identity p ∉ visited) :
    walk search tree visited includes =
      paths.map fun p => .entered p ((tree.read p).toOption.getD []) := by
  induction paths generalizing visited includes with
  | nil =>
    rw [List.map_eq_nil_iff.1 htarget, walk]
    rfl
  | cons p paths ih =>
    obtain ⟨i, others, rfl, hfirst, htarget⟩ := List.map_eq_cons_iff.1 htarget
    obtain ⟨hnone, hleaf⟩ := List.forall_mem_cons.1 hleaf
    obtain ⟨hother, hdistinct⟩ := List.nodup_cons.1 hdistinct
    obtain ⟨hp, hnew⟩ := List.forall_mem_cons.1 hnew
    rw [walk_of_entered hfirst hp, hnone, List.nil_append, List.map_cons,
      ih htarget hleaf hdistinct fun q hq => ?_]
    rw [List.mem_cons, not_or]
    exact ⟨fun heq => hother (heq ▸ List.mem_map_of_mem hq), hnew q hq⟩

/-! ### Walks that can be evaluated -/

/-- A walk of at most the given number of steps; none if there are more. The steps are what the
    recursion goes down on, so that single walks can be evaluated. -/
def walkWithin (search : Search) (tree : FileTree) :
    (steps : Nat) → (visited : List Path) → List Include → Option (List Event)
  | _, _, [] => some []
  | 0, _, _ :: _ => none
  | steps + 1, visited, next :: rest =>
    match next.target? search tree with
    | none => (walkWithin search tree steps visited rest).map (.unresolved next :: ·)
    | some path =>
      if tree.identity path ∈ visited then walkWithin search tree steps visited rest
      else (walkWithin search tree steps (tree.identity path :: visited)
        (tree.includes path ++ rest)).map
          (.entered path ((tree.read path).toOption.getD []) :: ·)

theorem walk_of_walkWithin {steps : Nat}
    (h : walkWithin search tree steps visited includes = some events) :
    walk search tree visited includes = events := by
  induction steps generalizing visited includes events with
  | zero =>
    cases includes with
    | nil =>
      cases h
      rw [walk]
    | cons next rest => cases h
  | succ steps ih =>
    cases includes with
    | nil =>
      cases h
      rw [walk]
    | cons next rest =>
      rw [walkWithin] at h
      split at h
      · next hnone =>
        obtain ⟨others, hothers, rfl⟩ := Option.map_eq_some_iff.1 h
        rw [walk_of_unresolved hnone, ih hothers]
      · next path hsome =>
        split at h
        · next hvisited => rw [walk_of_visited hsome hvisited, ih h]
        · next hvisited =>
          obtain ⟨others, hothers, rfl⟩ := Option.map_eq_some_iff.1 h
          rw [walk_of_entered hsome hvisited, ih hothers]

/-! ### Includes that lead to no file -/

/-- The includes of a walk that lead to no file, in order. -/
def missing (events : List Event) : List Include := events.filterMap Event.missing?

/-- The includes of a list that lead to no file. -/
def lost (search : Search) (tree : FileTree) (includes : List Include) : List Include :=
  includes.filter fun i => (i.target? search tree).isNone

theorem lost_cons_of_none (h : i.target? search tree = none) :
    lost search tree (i :: rest) = i :: lost search tree rest := by
  simp [lost, h]

theorem lost_cons_of_some (h : i.target? search tree = some q) :
    lost search tree (i :: rest) = lost search tree rest := by
  simp [lost, h]

theorem lost_perm {includes' : List Include} (h : includes.Perm includes') :
    (lost search tree includes).Perm (lost search tree includes') :=
  h.filter _

/-- A walk tells each include that leads to no file, of those it starts from and of the headers it
    enters. -/
theorem missing_walk_perm (search : Search) (tree : FileTree) (visited : List Path)
    (includes : List Include) : (missing (walk search tree visited includes)).Perm
      (lost search tree
        (includes ++ (headers (walk search tree visited includes)).flatMap tree.includes)) := by
  induction visited, includes using walk.induct search tree with
  | case1 visited =>
    rw [walk]
    exact .nil
  | case2 visited next rest hnone ih =>
    rw [walk_of_unresolved hnone, headers_unresolved, List.cons_append, lost_cons_of_none hnone]
    exact ih.cons next
  | case3 visited next rest path hsome hvisited ih =>
    rw [walk_of_visited hsome hvisited, List.cons_append, lost_cons_of_some hsome]
    exact ih
  | case4 visited next rest path hsome hvisited contents ih =>
    rw [walk_of_entered hsome hvisited, headers_entered, List.cons_append, lost_cons_of_some hsome,
      List.flatMap_cons]
    -- The includes of the header are followed before the rest, and listed behind it.
    refine ih.trans (lost_perm ?_)
    rw [← List.append_assoc]
    exact List.perm_append_comm.append_right _

end PrecompiledHeaders.Include
