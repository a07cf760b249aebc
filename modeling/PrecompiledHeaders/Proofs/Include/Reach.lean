import PrecompiledHeaders.Include.Walk
import PrecompiledHeaders.Proofs.FileTree.Plain
import PrecompiledHeaders.Proofs.Path.Normal

/-!
# Reachability

What a walk is to find: the headers that includes lead to, directly or through other headers
(`Reaches`), where some headers are to be avoided. In a tree without links, the headers that a walk
enters are those that are reached over headers that were not visited before (`mem_walk_iff`).

The walk follows includes depth first and never enters a header again, so a header is not entered
on every way that leads to it. What makes up for that is `reaches_cons_iff`: behind the first header
that is entered, one may as well avoid it, if its own includes are followed as well.
-/

namespace PrecompiledHeaders

variable {search : Search} {tree : FileTree}

/-- The includes of a header. -/
def FileTree.includes (tree : FileTree) (header : Path) : List Include :=
  Include.ofFile header ((tree.read header).toOption.getD [])

/-- The header that an include leads to. -/
def Include.target? (search : Search) (tree : FileTree) (i : Include) : Option Path :=
  search.resolve? tree i.directory i.directive

/-- The headers that includes lead to, over headers that are not to be avoided. -/
inductive Reaches (search : Search) (tree : FileTree) (avoid : Path → Prop)
    (start : List Include) : Path → Prop
  | start {i : Include} {p : Path} : i ∈ start → i.target? search tree = some p → ¬avoid p →
      Reaches search tree avoid start p
  | next {header : Path} {i : Include} {p : Path} : Reaches search tree avoid start header →
      i ∈ tree.includes header → i.target? search tree = some p → ¬avoid p →
      Reaches search tree avoid start p

namespace Reaches

variable {avoid avoid' : Path → Prop} {start start' : List Include} {p q : Path}

theorem not_avoid (h : Reaches search tree avoid start p) : ¬avoid p := by
  cases h <;> assumption

theorem mono (h : Reaches search tree avoid start p) (ha : ∀ q, avoid' q → avoid q)
    (hs : ∀ i ∈ start, i ∈ start') : Reaches search tree avoid' start' p := by
  induction h with
  | start hi ht hp => exact .start (hs _ hi) ht (mt (ha _) hp)
  | next _ hi ht hp ih => exact .next ih hi ht (mt (ha _) hp)

/-- What is reached is there. -/
theorem isFile (h : Reaches search tree avoid start p) : tree.isFile p = true := by
  cases h with
  | start _ ht => exact Search.isFile_of_resolve? ht
  | next _ _ ht => exact Search.isFile_of_resolve? ht

/-- A way over a header is cut where it leaves that header for the last time. -/
theorem cut (h : Reaches search tree avoid start p) (q : Path) :
    p = q ∨ Reaches search tree (fun r => r = q ∨ avoid r) (tree.includes q ++ start) p := by
  induction h with
  | @start i p hi ht hp =>
    by_cases hq : p = q
    · exact .inl hq
    · exact .inr (.start (List.mem_append_right _ hi) ht (not_or.2 ⟨hq, hp⟩))
  | @next header i p _ hi ht hp ih =>
    -- From the header itself, the way starts anew with its own includes.
    by_cases hq : p = q
    · exact .inl hq
    rcases ih with rfl | hreach
    · exact .inr (.start (List.mem_append_left _ hi) ht (not_or.2 ⟨hq, hp⟩))
    · exact .inr (.next hreach hi ht (not_or.2 ⟨hq, hp⟩))

/-- What is reached through a header that is reached. -/
theorem through (hq : Reaches search tree avoid start q)
    (h : Reaches search tree avoid (tree.includes q ++ start) p) :
    Reaches search tree avoid start p := by
  induction h with
  | start hi ht hp =>
    rcases List.mem_append.1 hi with hi' | hi'
    · exact .next hq hi' ht hp
    · exact .start hi' ht hp
  | next _ hi ht hp ih => exact .next ih hi ht hp

end Reaches

variable {visited : List Path} {i : Include} {rest : List Include} {p q : Path}

theorem not_reaches_nil {avoid : Path → Prop} : ¬Reaches search tree avoid [] p := by
  intro h
  induction h with
  | start hi => exact List.not_mem_nil hi
  | next _ _ _ _ ih => exact ih

/-- An include that leads to no header that may be entered can be left out. -/
theorem reaches_cons_of_blocked {avoid : Path → Prop}
    (h : ∀ q, i.target? search tree = some q → avoid q) :
    Reaches search tree avoid (i :: rest) p ↔ Reaches search tree avoid rest p := by
  refine ⟨fun hreach => ?_, fun hreach => hreach.mono (fun _ => id) fun _ => List.mem_cons_of_mem _⟩
  induction hreach with
  | start hi ht hp =>
    rcases List.mem_cons.1 hi with rfl | hi'
    · exact absurd (h _ ht) hp
    · exact .start hi' ht hp
  | next _ hi ht hp ih => exact .next ih hi ht hp

/-- Entering a header. -/
theorem reaches_cons_iff {avoid : Path → Prop} (ht : i.target? search tree = some q)
    (hq : ¬avoid q) : Reaches search tree avoid (i :: rest) p ↔
      p = q ∨ Reaches search tree (fun r => r = q ∨ avoid r) (tree.includes q ++ rest) p := by
  have hreach : Reaches search tree avoid (i :: rest) q := .start List.mem_cons_self ht hq
  constructor
  · intro h
    refine (h.cut q).imp_right fun hcut => ?_
    -- The include that led to the header is of no use any more.
    have hblocked : Reaches search tree (fun r => r = q ∨ avoid r)
        (i :: (tree.includes q ++ rest)) p :=
      hcut.mono (fun _ => id) fun j hj => by
        simp only [List.mem_append, List.mem_cons] at hj ⊢
        rcases hj with hj | hj | hj
        · exact .inr (.inl hj)
        · exact .inl hj
        · exact .inr (.inr hj)
    refine (reaches_cons_of_blocked fun r hr => ?_).1 hblocked
    exact .inl (Option.some.inj (hr.symm.trans ht))
  · rintro (rfl | h)
    · exact hreach
    · refine hreach.through (h.mono (fun _ => .inr) fun j hj => ?_)
      rcases List.mem_append.1 hj with hj' | hj'
      · exact List.mem_append_left _ hj'
      · exact List.mem_append_right _ (List.mem_cons_of_mem _ hj')

/-! ### Where includes lead -/

/-- Whether all directories that are searched are absolute. -/
structure Search.IsAbsolute (search : Search) : Prop where
  quoted : ∀ d ∈ search.quoted, d.isAbsolute = true
  angled : ∀ d ∈ search.angled, d.isAbsolute = true

/-- Each candidate was normalised. -/
theorem Search.normalize_of_mem_candidates {directory p : Path} {directive : Directive}
    (h : p ∈ search.candidates directory directive) : p.normalize = p := by
  unfold candidates at h
  simp only at h
  split at h
  · rw [List.mem_singleton.1 h, Path.normalize_normalize]
  · obtain ⟨_, -, rfl⟩ := List.mem_map.1 h
    rw [Path.normalize_normalize]

theorem Search.isNormal_of_mem_candidates {directory : Path} {directive : Directive}
    (hs : search.IsAbsolute) (hd : directory.isAbsolute)
    (h : p ∈ search.candidates directory directive) : p.IsNormal := by
  simp only [Search.candidates] at h
  split at h
  · next habs =>
    rw [List.mem_singleton.1 h]
    exact Path.isNormal_normalize habs
  · obtain ⟨d, hdmem, rfl⟩ := List.mem_map.1 h
    refine Path.isNormal_normalize (Path.isAbsolute_join ?_ _)
    split at hdmem
    · exact (List.mem_cons.1 hdmem).elim (fun h => h ▸ hd) (hs.quoted d)
    · exact hs.angled d hdmem

theorem Include.isNormal_target (hs : search.IsAbsolute) (hd : i.directory.isAbsolute)
    (ht : i.target? search tree = some p) : p.IsNormal :=
  Search.isNormal_of_mem_candidates hs hd (List.mem_of_find?_eq_some ht)

theorem Include.isAbsolute_ofFile {contents : Bytes} (hp : p.isAbsolute)
    (hi : i ∈ Include.ofFile p contents) : i.directory.isAbsolute := by
  obtain ⟨directive, -, rfl⟩ := List.mem_map.1 hi
  exact Path.isAbsolute_parent hp

/-- What is reached is written in normal form. -/
theorem Reaches.normalize_eq {avoid : Path → Prop} {start : List Include}
    (h : Reaches search tree avoid start p) : p.normalize = p := by
  have htarget {i : Include} (ht : i.target? search tree = some p) : p.normalize = p :=
    Search.normalize_of_mem_candidates (List.mem_of_find?_eq_some ht)
  cases h with
  | start _ ht => exact htarget ht
  | next _ _ ht => exact htarget ht

/-- What is reached is a normal path. -/
theorem Reaches.isNormal {avoid : Path → Prop} {start : List Include}
    (h : Reaches search tree avoid start p) (hs : search.IsAbsolute)
    (hstart : ∀ i ∈ start, i.directory.isAbsolute = true) : p.IsNormal := by
  induction h with
  | start hi ht => exact Include.isNormal_target hs (hstart _ hi) ht
  | next _ hi ht _ ih =>
    unfold FileTree.includes at hi
    exact Include.isNormal_target hs (Include.isAbsolute_ofFile ih.isAbsolute hi) ht

/-- Only which normal paths are avoided matters. -/
theorem Reaches.of_avoid {avoid avoid' : Path → Prop} {start : List Include}
    (h : Reaches search tree avoid start p) (hs : search.IsAbsolute)
    (hstart : ∀ i ∈ start, i.directory.isAbsolute = true)
    (ha : ∀ q : Path, q.IsNormal → avoid' q → avoid q) : Reaches search tree avoid' start p := by
  induction h with
  | start hi ht hp =>
    exact .start hi ht fun hp' => hp (ha _ (Include.isNormal_target hs (hstart _ hi) ht) hp')
  | next hreach hi ht hp ih =>
    have hnormal := (Reaches.next hreach hi ht hp).isNormal hs hstart
    exact .next ih hi ht fun hp' => hp (ha _ hnormal hp')

/-! ### Walks -/

/-- The header that is entered, if one is. -/
def Event.path? (event : Event) : Option Path := event.header?.map Prod.fst

/-- The headers that are entered in a walk, in order. -/
def Include.headers (events : List Event) : List Path := events.filterMap Event.path?

namespace Include

theorem walk_of_unresolved (h : i.target? search tree = none) :
    walk search tree visited (i :: rest) = .unresolved i :: walk search tree visited rest := by
  rw [walk]
  split
  · rfl
  · next h' => cases h.symm.trans h'

theorem walk_of_visited (h : i.target? search tree = some q) (hv : tree.identity q ∈ visited) :
    walk search tree visited (i :: rest) = walk search tree visited rest := by
  rw [walk]
  split
  · next h' => cases h.symm.trans h'
  · next h' =>
    cases h.symm.trans h'
    rw [dif_pos hv]

theorem walk_of_entered (h : i.target? search tree = some q) (hv : tree.identity q ∉ visited) :
    walk search tree visited (i :: rest) = .entered q ((tree.read q).toOption.getD []) ::
      walk search tree (tree.identity q :: visited) (tree.includes q ++ rest) := by
  rw [walk]
  split
  · next h' => cases h.symm.trans h'
  · next h' =>
    cases h.symm.trans h'
    rw [dif_neg hv]
    rfl

end Include

/-- Whatever a walk enters is reached, also over links. -/
theorem Reaches.of_mem_walk {includes : List Include}
    (h : p ∈ Include.headers (Include.walk search tree visited includes)) :
    Reaches search tree (fun _ => False) includes p := by
  induction visited, includes using Include.walk.induct search tree with
  | case1 visited =>
    rw [Include.walk] at h
    exact absurd h List.not_mem_nil
  | case2 visited next rest hnone ih =>
    rw [Include.walk_of_unresolved hnone] at h
    exact (ih h).mono (fun _ => id) fun i => List.mem_cons_of_mem _
  | case3 visited next rest path hsome hvisited ih =>
    rw [Include.walk_of_visited hsome hvisited] at h
    exact (ih h).mono (fun _ => id) fun i => List.mem_cons_of_mem _
  | case4 visited next rest path hsome hvisited contents ih =>
    rw [Include.walk_of_entered hsome hvisited] at h
    -- What lies behind the header is reached through it.
    have hpath : Reaches search tree (fun _ => False) (next :: rest) path :=
      .start List.mem_cons_self hsome id
    rcases List.mem_cons.1 h with rfl | hin
    · exact hpath
    · refine hpath.through ((ih hin).mono (fun _ => id) fun i hi => ?_)
      exact (List.mem_append.1 hi).elim (List.mem_append_left _) fun hi =>
        List.mem_append_right _ (List.mem_cons_of_mem _ hi)

/-- A walk enters what is reached from its includes over headers that were not visited. -/
theorem mem_walk_iff (hs : search.IsAbsolute) (ht : tree.IsPlain) {includes : List Include}
    (hi : ∀ i ∈ includes, i.directory.isAbsolute = true) :
    p ∈ Include.headers (Include.walk search tree visited includes) ↔
      Reaches search tree (· ∈ visited) includes p := by
  induction visited, includes using Include.walk.induct search tree with
  | case1 visited =>
    rw [Include.walk]
    exact iff_of_false List.not_mem_nil not_reaches_nil
  | case2 visited next rest hnone ih =>
    rw [Include.walk_of_unresolved hnone,
      reaches_cons_of_blocked fun q hq => by cases hnone.symm.trans hq]
    exact ih fun i hmem => hi i (List.mem_cons_of_mem _ hmem)
  | case3 visited next rest path hsome hvisited ih =>
    have hnormal := Include.isNormal_target hs (hi next List.mem_cons_self) hsome
    rw [Include.walk_of_visited hsome hvisited, reaches_cons_of_blocked fun q hq => by
      cases hsome.symm.trans hq
      rwa [FileTree.identity_of_isNormal ht hnormal] at hvisited]
    exact ih fun i hmem => hi i (List.mem_cons_of_mem _ hmem)
  | case4 visited next rest path hsome hvisited contents ih =>
    have hnormal := Include.isNormal_target hs (hi next List.mem_cons_self) hsome
    have hincludes : ∀ i ∈ tree.includes path ++ rest, i.directory.isAbsolute = true := by
      intro i hmem
      rcases List.mem_append.1 hmem with hmem | hmem
      · exact Include.isAbsolute_ofFile hnormal.isAbsolute hmem
      · exact hi i (List.mem_cons_of_mem _ hmem)
    have hrest : p ∈ Include.headers (Include.walk search tree (tree.identity path :: visited)
        (tree.includes path ++ rest)) ↔
      Reaches search tree (· ∈ tree.identity path :: visited) (tree.includes path ++ rest) p :=
        ih hincludes
    rw [Include.walk_of_entered hsome hvisited]
    -- Without links, what the walk remembers of a header is its path.
    rw [FileTree.identity_of_isNormal ht hnormal] at hvisited hrest ⊢
    rw [reaches_cons_iff hsome hvisited]
    simp only [List.mem_cons] at hrest
    rw [← hrest]
    exact List.mem_cons

end PrecompiledHeaders
