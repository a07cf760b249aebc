import PrecompiledHeaders.Proofs.Frontend.Preprocess
import PrecompiledHeaders.Proofs.Include.Change

/-!
# What a scan looks into

A scan looks into its input, into the precompiled headers in front of the input, and into the
headers that are reached. If all of these are as they were before some files were written
(`Scan.LooksBack`), the scan comes to the same as before (`Scan.run_iff_of_gains`). The condition is
about the tree as it is now: an include that used to lead to no file may lead to one that was
written, and so may one that used to lead to another file.
-/

namespace PrecompiledHeaders

open FileTree

variable {tree tree' : FileTree} {files directories : Path → Prop}

theorem Snapshot.read_iff_of_gains {p : Path} {snapshot : Snapshot}
    (h : Gains files directories tree tree') (hold : IsOld files tree tree' p) :
    Snapshot.read tree' p = .ok snapshot ↔ Snapshot.read tree p = .ok snapshot := by
  unfold Snapshot.read
  cases hafter : tree'.read p with
  | ok raw => rw [(h.read_iff hold).1 hafter]
  | error e =>
    cases hbefore : tree.read p with
    | ok raw => cases hafter.symm.trans ((h.read_iff hold).2 hbefore)
    | error e' => exact iff_of_false (fun h => by cases h) fun h => by cases h

namespace Scan

variable {compiler : String} {arguments : List String} {directory unit : Path}
  {excluded bases : List Path} {scan : Scan} {entries : List SnapshotEntry}

/-- Whether all that the scan of some arguments looks into is old, and what precompiled headers in
    front of the input hold are the files that it was. -/
structure LooksBack (files : Path → Prop) (tree tree' : FileTree) (arguments : List String)
    (directory : Path) : Prop where
  input : ∀ unit, ((Settings.ofArguments arguments).absolute directory).inputs.head? = some unit →
    IsOld files tree tree' unit
  bases : ∀ base ∈ ((Settings.ofArguments arguments).absolute directory).bases,
    IsOld files tree tree' base
  entries : ∀ base ∈ ((Settings.ofArguments arguments).absolute directory).bases, ∀ snapshot,
    Snapshot.read tree' base = .ok snapshot → ∀ q ∈ snapshot.paths,
      tree'.identity q = tree.identity q
  headers : ∀ unit, ((Settings.ofArguments arguments).absolute directory).inputs.head? = some unit →
    ∀ p, ReachedFrom tree' arguments directory (fun _ => False) unit p → IsOld files tree tree' p

theorem baseEntries_iff_of_gains (h : Gains files directories tree tree')
    (hbases : ∀ base ∈ bases, IsOld files tree tree' base) :
    baseEntries tree' bases = .ok entries ↔ baseEntries tree bases = .ok entries := by
  induction bases generalizing entries with
  | nil => exact Iff.rfl
  | cons base rest ih =>
    have hrest (others : List SnapshotEntry) :
        baseEntries tree' rest = .ok others ↔ baseEntries tree rest = .ok others :=
      ih fun b hb => hbases b (List.mem_cons_of_mem _ hb)
    simp only [baseEntries_cons_iff, Snapshot.read_iff_of_gains h (hbases base List.mem_cons_self),
      hrest]

theorem run_eq_ok_iff : run tree ⟨compiler, arguments, directory⟩ excluded = .ok scan ↔
    ∃ unit, ((Settings.ofArguments arguments).absolute directory).inputs.head? = some unit ∧
      ∃ source, tree.read unit = .ok source ∧
        ∃ base, baseEntries tree ((Settings.ofArguments arguments).absolute directory).bases =
            .ok base ∧
          ⟨(Settings.ofArguments arguments).absolute directory, base,
            Include.walk (search arguments directory) tree
              (visitedBefore tree directory excluded base unit)
              (roots arguments directory unit source)⟩ = scan := by
  constructor
  · intro h
    obtain ⟨unit, source, base, hinput, hsource, hbase, rfl⟩ := run_eq_ok h
    exact ⟨unit, hinput, source, hsource, base, hbase, rfl⟩
  · rintro ⟨unit, hinput, source, hsource, base, hbase, rfl⟩
    exact run_of_head? hinput hsource hbase

/-- A scan that looks into what is old finds what it found before, if the excluded files are the
    same. -/
theorem run_iff_of_gains (h : Gains files directories tree tree')
    (hback : LooksBack files tree tree' arguments directory)
    (hexcluded : ∀ p ∈ excluded, tree'.identity (directory.normalizeFrom p) =
      tree.identity (directory.normalizeFrom p)) :
    run tree' ⟨compiler, arguments, directory⟩ excluded = .ok scan ↔
      run tree ⟨compiler, arguments, directory⟩ excluded = .ok scan := by
  rw [run_eq_ok_iff, run_eq_ok_iff]
  refine exists_congr fun unit => and_congr_right fun hinput => exists_congr fun source => ?_
  rw [← h.read_iff (hback.input unit hinput)]
  refine and_congr_right fun hsource => exists_congr fun base => ?_
  rw [← baseEntries_iff_of_gains h hback.bases]
  refine and_congr_right fun hbase => ?_
  -- The walk starts from the same includes, with the same files visited.
  have hentries : base.map (tree'.identity ·.path) = base.map (tree.identity ·.path) := by
    refine List.map_congr_left fun e he => ?_
    obtain ⟨b, hb, snapshot, hread, hin⟩ := (mem_baseEntries_iff hbase e).1 he
    exact hback.entries b hb snapshot hread e.path (List.mem_map_of_mem hin)
  have hvisited : visitedBefore tree' directory excluded base unit =
      visitedBefore tree directory excluded base unit := by
    rw [visitedBefore, visitedBefore, h.identity_eq_of_read (hback.input unit hinput) hsource, hentries,
      List.map_congr_left hexcluded]
  rw [hvisited,
    h.walk_eq fun p hreach => hback.headers unit hinput p ⟨source, hsource, hreach⟩]

/-- So preprocessing lists the same headers, or fails again. -/
theorem toOption_preprocess (h : Gains files directories tree tree')
    (hback : LooksBack files tree tree' arguments directory)
    (hexcluded : ∀ p ∈ excluded, tree'.identity (directory.normalizeFrom p) =
      tree.identity (directory.normalizeFrom p)) :
    (preprocess tree' ⟨compiler, arguments, directory⟩ excluded).toOption =
      (preprocess tree ⟨compiler, arguments, directory⟩ excluded).toOption := by
  have hrun : (run tree' ⟨compiler, arguments, directory⟩ excluded).toOption =
      (run tree ⟨compiler, arguments, directory⟩ excluded).toOption :=
    Except.toOption_congr fun _ => run_iff_of_gains h hback hexcluded
  rw [preprocess, preprocess]
  generalize run tree' ⟨compiler, arguments, directory⟩ excluded = after,
    run tree ⟨compiler, arguments, directory⟩ excluded = before at hrun ⊢
  cases after <;> cases before <;> cases hrun <;> rfl

end Scan

end PrecompiledHeaders
