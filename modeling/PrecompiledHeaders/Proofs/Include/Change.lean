import PrecompiledHeaders.Proofs.FileTree.Making
import PrecompiledHeaders.Proofs.Include.Reach

/-!
# Includes in trees that change

When files are written, the includes of all other files stay as they are
(`FileTree.Evolves.includes_eq`), while an include may lead to a file that was written, in place of
the one it led to before. An include that leads to none of the written files leads where it led
before (`FileTree.Evolves.target?_eq`). So what is reached while written files are avoided can be
found in the tree as it was (`Reaches.of_evolves`).

With links in the tree, an include may also come to lead somewhere over a directory that was made.
A walk takes the course it took before if it reaches old paths only (`FileTree.Gains.walk_eq`).
-/

namespace PrecompiledHeaders

variable {search : Search} {tree tree' : FileTree} {written : Location → Prop} {p : Path}

namespace FileTree.Evolves

theorem includes_eq (h : Evolves written tree tree') (hsound : tree.IsSound) (hp : p.IsNormal)
    (hnot : ¬written p.location) : tree'.includes p = tree.includes p := by
  rw [includes, h.toOption_read hsound hp hnot, includes]

/-- No candidate in front of the target has gone. -/
theorem target?_eq (h : Evolves written tree tree') (hsound : tree.IsSound)
    (hs : search.IsAbsolute) {i : Include} (hd : i.directory.isAbsolute)
    (hnot : ¬written p.location) (ht : i.target? search tree' = some p) :
    i.target? search tree = some p := by
  obtain ⟨hfile, front, behind, hcandidates, hfront⟩ := List.find?_eq_some_iff_append.1 ht
  have hnormal : ∀ q ∈ front ++ p :: behind, q.IsNormal := fun q hq =>
    Search.isNormal_of_mem_candidates hs hd (hcandidates ▸ hq)
  refine List.find?_eq_some_iff_append.2 ⟨?_, front, behind, hcandidates, fun q hq => ?_⟩
  · rwa [← h.isFile_iff hsound (hnormal p (by simp)) hnot]
  · have hq' := hfront q hq
    rw [Bool.not_eq_true'] at hq' ⊢
    exact Bool.eq_false_iff.2 fun hfile =>
      Bool.eq_false_iff.1 hq' (h.isFile hsound (hnormal q (by simp [hq])) hfile)

/-- An include that led to a file leads to one again. -/
theorem target?_eq_none (h : Evolves written tree tree') (hsound : tree.IsSound)
    (hs : search.IsAbsolute) {i : Include} (hd : i.directory.isAbsolute)
    (ht : i.target? search tree' = none) : i.target? search tree = none := by
  refine List.find?_eq_none.2 fun q hq hfile => ?_
  exact List.find?_eq_none.1 ht q hq
    (h.isFile hsound (Search.isNormal_of_mem_candidates hs hd hq) hfile)

end FileTree.Evolves

/-- A property of headers that holds of the first ones and is handed on along the includes of the
    tree as it was holds of all that is reached in the tree as it is, as long as it holds of no file
    that was written and these are avoided. -/
theorem Reaches.of_evolves {avoid : Path → Prop} {start : List Include} (goal : Path → Prop)
    (h : Reaches search tree' avoid start p) (hevolves : FileTree.Evolves written tree tree')
    (hsound : tree.IsSound) (hs : search.IsAbsolute)
    (hgoal : ∀ q, goal q → q.IsNormal ∧ ¬written q.location)
    (havoid : ∀ q : Path, q.IsNormal → written q.location → avoid q)
    (hstart : ∀ i ∈ start, ∀ q, i.target? search tree' = some q → ¬avoid q → goal q)
    (hnext : ∀ header, goal header → ∀ i ∈ tree.includes header, ∀ q,
      i.target? search tree = some q → ¬avoid q → goal q) : goal p := by
  induction h with
  | @start i p hi ht hp => exact hstart i hi p ht hp
  | @next header i p _ hi ht hp ih =>
    obtain ⟨hnormal, hnot⟩ := hgoal header ih
    rw [hevolves.includes_eq hsound hnormal hnot] at hi
    have hd : i.directory.isAbsolute := Include.isAbsolute_ofFile hnormal.isAbsolute hi
    have hp' : ¬written p.location := mt (havoid p (Include.isNormal_target hs hd ht)) hp
    exact hnext header ih i hi p (hevolves.target?_eq hsound hs hd hp' ht) hp

/-! ### Walks -/

namespace FileTree.Gains

variable {files directories : Path → Prop}

/-- What is found at an old path, in front of others, was found there before. -/
theorem target?_eq (h : Gains files directories tree tree') {i : Include}
    (hold : IsOld files tree tree' p) (ht : i.target? search tree' = some p) :
    i.target? search tree = some p := by
  obtain ⟨hfile, front, behind, hcandidates, hfront⟩ := List.find?_eq_some_iff_append.1 ht
  refine List.find?_eq_some_iff_append.2 ⟨?_, front, behind, hcandidates, fun q hq => ?_⟩
  · exact (h.isFile_iff hold).1 hfile
  · have hq' := hfront q hq
    rw [Bool.not_eq_true'] at hq' ⊢
    exact Bool.eq_false_iff.2 fun hfile => Bool.eq_false_iff.1 hq' (h.grows.isFile hfile)

theorem target?_eq_none (h : Gains files directories tree tree') {i : Include}
    (ht : i.target? search tree' = none) : i.target? search tree = none :=
  List.find?_eq_none.2 fun q hq hfile => List.find?_eq_none.1 ht q hq (h.grows.isFile hfile)

/-- A walk is the same in both trees if all that is reached from its includes is old. -/
theorem walk_eq (h : Gains files directories tree tree') {visited : List Path}
    {includes : List Include}
    (hold : ∀ p, Reaches search tree' (fun _ => False) includes p → IsOld files tree tree' p) :
    Include.walk search tree' visited includes = Include.walk search tree visited includes := by
  -- The walk in the tree as it is decides the cases, and the tree as it was is brought to agree.
  induction visited, includes using Include.walk.induct search tree' with
  | case1 visited => rw [Include.walk, Include.walk]
  | case2 visited next rest hnone ih =>
    rw [Include.walk_of_unresolved hnone, Include.walk_of_unresolved (h.target?_eq_none hnone)]
    exact congrArg _ (ih fun p hreach =>
      hold p (hreach.mono (fun _ => id) fun _ => List.mem_cons_of_mem _))
  | case3 visited next rest path hsome hvisited ih =>
    have hpath := hold path (.start List.mem_cons_self hsome id)
    have hidentity := h.identity_eq_of_isFile hpath (Search.isFile_of_resolve? hsome)
    rw [Include.walk_of_visited hsome hvisited,
      Include.walk_of_visited (h.target?_eq hpath hsome) (hidentity ▸ hvisited)]
    exact ih fun p hreach => hold p (hreach.mono (fun _ => id) fun _ => List.mem_cons_of_mem _)
  | case4 visited next rest path hsome hvisited contents ih =>
    have hreached : Reaches search tree' (fun _ => False) (next :: rest) path :=
      .start List.mem_cons_self hsome id
    have hpath := hold path hreached
    have hidentity := h.identity_eq_of_isFile hpath (Search.isFile_of_resolve? hsome)
    have hcontents := h.toOption_read hpath
    have hincludes : tree'.includes path = tree.includes path := by
      rw [includes, hcontents, includes]
    have hrest : Include.walk search tree' (tree'.identity path :: visited)
        (tree'.includes path ++ rest) = Include.walk search tree (tree'.identity path :: visited)
          (tree'.includes path ++ rest) := by
      refine ih fun p hreach => hold p ?_
      -- What lies behind the header is reached through it.
      refine hreached.through (hreach.mono (fun _ => id) fun i hmem => ?_)
      exact (List.mem_append.1 hmem).elim (List.mem_append_left _) fun hmem =>
        List.mem_append_right _ (List.mem_cons_of_mem _ hmem)
    rw [Include.walk_of_entered hsome hvisited,
      Include.walk_of_entered (h.target?_eq hpath hsome) (hidentity ▸ hvisited), hcontents, hrest,
      hincludes, hidentity]

end FileTree.Gains

end PrecompiledHeaders
