import PrecompiledHeaders.Proofs.FileTree.Identity
import PrecompiledHeaders.Proofs.Path.Parent
import PrecompiledHeaders.Proofs.Path.Stages
import PrecompiledHeaders.Proofs.Program.Session

/-!
# Where configurations are found

A configuration is looked for in a directory, its parent, the parent of that, and so on
(`Path.above?`), until there is no parent any more: each of these paths says what the first one says,
without some components at the end (`Path.components_of_above?`), and the last one says nothing or is
the root (`Path.exists_above?_last`). The first directory that holds the file is the one that is found
(`Config.find_eq_ok_iff`).

However the directory is written, the same file is read there. Paths that are the same lead to one
location, if both lead anywhere (`FileTree.locate_eq_of_same`), and what a configuration writes is taken
from the same place. So what a configuration comes to depends on the nearest directory alone
(`Config.nearest_is_found`).
-/

namespace PrecompiledHeaders

/-! ### The parents above a path -/

namespace Path

variable {p q : Path} {n : Nat}

/-- The parent of the parent, and so on, as many times as is said. -/
def above? : Nat → Path → Option Path
  | 0, p => some p
  | n + 1, p => p.parent?.bind (above? n)

theorem ancestors_of_parent?_eq_none (h : p.parent? = none) : p.ancestors = [p] := by
  rw [ancestors]
  split
  · rfl
  · next hsome => cases h.symm.trans hsome

theorem getElem?_ancestors (n : Nat) (p : Path) : p.ancestors[n]? = above? n p := by
  induction n generalizing p with
  | zero =>
    rw [ancestors]
    rfl
  | succ n ih =>
    cases hparent : p.parent? with
    | none =>
      rw [ancestors_of_parent?_eq_none hparent, above?, hparent]
      rfl
    | some q =>
      rw [ancestors_of_parent? hparent, above?, hparent, List.getElem?_cons_succ, ih q,
        Option.bind_some]

theorem parent?_eq_none_iff : p.parent? = none ↔ p.components = [] ∨ p.components = [.root] := by
  rw [← Option.map_eq_none_iff (f := components), map_components_parent?]
  split <;> simp_all

/-- What is above a path says what the path says, without as many components. -/
theorem components_of_above? (h : above? n p = some q) :
    q.components = p.components.take (p.components.length - n) := by
  induction n generalizing p with
  | zero =>
    cases h
    simp
  | succ n ih =>
    obtain ⟨parent, hparent, habove⟩ := Option.bind_eq_some_iff.1 h
    have hcomponents := map_components_parent? p
    rw [hparent] at hcomponents
    split at hcomponents
    · cases hcomponents
    · rw [ih habove, Option.some.inj hcomponents, List.length_dropLast, List.dropLast_eq_take,
        List.take_take]
      congr 1
      omega

/-- There is a last path above each. -/
theorem exists_above?_last (p : Path) : ∃ n last, above? n p = some last ∧ last.parent? = none := by
  induction p using ancestors.induct with
  | case1 p ih =>
    cases hparent : p.parent? with
    | none => exact ⟨0, p, rfl, hparent⟩
    | some q =>
      obtain ⟨n, last, habove, hlast⟩ := ih q hparent
      exact ⟨n + 1, last, by rw [above?, hparent, Option.bind_some, habove], hlast⟩

end Path

/-! ### Paths that are the same -/

namespace FileTree

open PrecompiledHeaders.Path

variable {tree : FileTree} {p q : Path} {location location' : Location}

/-- The names that say something are the texts of what they say. -/
theorem map_bytes_said (p : Path) : p.said.map Component.bytes = telling p.segments := by
  rw [said, telling]
  induction p.segments with
  | nil => rfl
  | cons name names ih =>
    rw [List.filterMap_cons, Component.ofSegment?]
    by_cases hskip : name = [] ∨ name = dot
    · rw [if_pos hskip, List.filter_cons_of_neg (by simp [hskip]), ih]
    · rw [if_neg hskip, List.filter_cons_of_pos (by simp [not_or.1 hskip])]
      by_cases hup : name = dotDot
      · rw [if_pos hup, List.map_cons, ih, hup]
        rfl
      · rw [if_neg hup, List.map_cons, ih]
        rfl

/-- Paths that are the same lead to the same entry, unless one of them leads nowhere. -/
theorem locate_eq_of_same (h : Same p q) (hp : tree.locate p = .ok location)
    (hq : tree.locate q = .ok location') : location = location' := by
  obtain ⟨-, -, hp⟩ := trace_eq_ok_iff.1 (trace_of_place (locate_eq_ok_iff.1 hp))
  obtain ⟨-, -, hq⟩ := trace_eq_ok_iff.1 (trace_of_place (locate_eq_ok_iff.1 hq))
  have hp := hp.of_thins (thins_telling _) rfl
  have hq := hq.of_thins (thins_telling _) rfl
  rw [← map_bytes_said, origin] at hp hq
  rw [h.said_eq, h.isAbsolute_eq] at hp
  cases hp.unique hq
  rfl

theorem exists_locate_of_isFile (h : tree.isFile p = true) : ∃ location, tree.locate p = .ok location := by
  obtain ⟨entry, hfind, -⟩ := (isFile_iff tree p).1 h
  obtain ⟨location, hlocate, -⟩ := find?_eq_some.1 hfind
  exact ⟨location, hlocate⟩

/-- The same text is read at paths that are the same, if there is a file at both. -/
theorem readText_eq_of_same (h : Same p q) (hp : tree.isFile p = true) (hq : tree.isFile q = true) :
    tree.readText p = tree.readText q := by
  obtain ⟨location, hlocate⟩ := exists_locate_of_isFile hp
  obtain ⟨location', hlocate'⟩ := exists_locate_of_isFile hq
  rw [← locate_eq_of_same h hlocate hlocate'] at hlocate'
  rw [readText, readText, read, read, hlocate, hlocate']

end FileTree

namespace Config

open PrecompiledHeaders.Path

variable {tree : FileTree} {start directory directory' : Path} {e : ConfigError}

/-! ### The nearest directory -/

theorem find_eq_ok_iff : find tree start = .ok directory ↔ ∃ n, above? n start = some directory ∧
    tree.isFile (filePath directory) = true ∧
    ∀ m < n, ∀ other, above? m start = some other → tree.isFile (filePath other) = false := by
  have hfind : find tree start = .ok directory ↔ start.ancestors.find? (fun other =>
      tree.isFile (filePath other)) = some directory := by
    rw [find]
    split
    · next heq => rw [heq, Except.ok.injEq, Option.some.injEq]
    · next heq => rw [heq]; exact iff_of_false (by simp) (by simp)
  rw [hfind, List.find?_eq_some_iff_getElem]
  constructor
  · rintro ⟨hfile, n, hn, hat, hbefore⟩
    refine ⟨n, ?_, hfile, fun m hm other hother => ?_⟩
    · rw [← getElem?_ancestors, List.getElem?_eq_getElem hn, hat]
    · rw [← getElem?_ancestors] at hother
      obtain ⟨hlt, heq⟩ := List.getElem?_eq_some_iff.1 hother
      simpa [heq] using hbefore m hm
  · rintro ⟨n, hat, hfile, hbefore⟩
    rw [← getElem?_ancestors] at hat
    obtain ⟨hn, heq⟩ := List.getElem?_eq_some_iff.1 hat
    refine ⟨hfile, n, hn, heq, fun m hm => ?_⟩
    have hm' : m < start.ancestors.length := Nat.lt_trans hm hn
    have hother := hbefore m hm start.ancestors[m] (by
      rw [← getElem?_ancestors, List.getElem?_eq_getElem hm'])
    simpa using hother

theorem find_eq_error_iff : find tree start = .error e ↔ e = .notFound start ∧
    ∀ n directory, above? n start = some directory → tree.isFile (filePath directory) = false := by
  rw [find]
  split
  · next directory heq =>
    refine iff_of_false (by simp) fun h => ?_
    obtain ⟨n, hn, hat⟩ := List.getElem_of_mem (List.mem_of_find?_eq_some heq)
    have hnone := h.2 n directory (by rw [← getElem?_ancestors, List.getElem?_eq_getElem hn, hat])
    have hfile := List.find?_some heq
    exact Bool.false_ne_true (hnone.symm.trans hfile)
  · next heq =>
    rw [List.find?_eq_none] at heq
    refine ⟨fun h => ⟨by cases h; rfl, fun n directory habove => ?_⟩, fun h => by rw [h.1]⟩
    rw [← getElem?_ancestors] at habove
    simpa using heq directory (List.mem_of_getElem? habove)

/-! ### What is found there -/

theorem same_filePath (h : Same directory directory') :
    Same (filePath directory) (filePath directory') := by
  have hname : IsName (Utf8.encode "pchd.toml".toList) :=
    ⟨by decide, by decide, by decide, by decide⟩
  rw [Same, filePath, filePath, child, child, ofString, components_join _ hname,
    components_join _ hname, show directory.components = directory'.components from h]

theorem resolve_eq_of_same (h : Same directory directory') (config : Config) :
    config.resolve directory = config.resolve directory' := by
  have hfrom : directory.normalizeFrom = directory'.normalizeFrom := funext fun p => by
    rw [← normalizeFrom_normalize_left, h.normalize_eq, normalizeFrom_normalize_left]
  have hpart : resolvePart directory = resolvePart directory' := funext fun part => by
    rw [resolvePart, resolvePart, hfrom]
  rw [resolve, resolve, hfrom, hpart]

/-- Whether all paths of a resolved configuration are absolute and normal. -/
structure Resolved.IsNormal (resolved : Resolved) : Prop where
  workingDirectory : resolved.workingDirectory.IsNormal
  outputDirectory : resolved.outputDirectory.IsNormal
  headers : ∀ part ∈ resolved.parts, ∀ p ∈ part.headers, p.IsNormal
  sources : ∀ part ∈ resolved.parts, ∀ p ∈ part.sources, p.IsNormal

theorem isNormal_resolve (h : directory.isAbsolute = true) (config : Config) :
    (config.resolve directory).IsNormal := by
  refine ⟨isNormal_normalizeFrom h _, isNormal_normalizeFrom h _, fun part hpart p hp => ?_,
    fun part hpart p hp => ?_⟩
  all_goals
    obtain ⟨written, -, rfl⟩ := List.mem_map.1 hpart
    exact isNormal_of_mem_map h hp

theorem isAbsolute_of_find (hstart : start.isAbsolute = true) (h : find tree start = .ok directory) :
    directory.isAbsolute = true := by
  obtain ⟨n, habove, -⟩ := find_eq_ok_iff.1 h
  rw [← getElem?_ancestors] at habove
  exact isAbsolute_of_mem_ancestors hstart (List.mem_of_getElem? habove)

/-- What is looked for from a directory is found in the nearest directory around it that has the file,
    and an error says that there is none. The directories around it are what it says without
    components at the end, down to the root or nothing. If two paths have nearest directories that are
    the same, the configurations that are found come to the same, and all paths in them are absolute
    and normal. -/
theorem nearest_is_found (tree : FileTree) :
    (∀ start,
      (∀ directory, find tree start = .ok directory ↔ ∃ n, above? n start = some directory ∧
        tree.isFile (filePath directory) = true ∧
        ∀ m < n, ∀ other, above? m start = some other → tree.isFile (filePath other) = false) ∧
      (∀ e, find tree start = .error e ↔ e = .notFound start ∧
        ∀ n directory, above? n start = some directory → tree.isFile (filePath directory) = false) ∧
      (∀ n directory, above? n start = some directory →
        directory.components = start.components.take (start.components.length - n)) ∧
      ∃ n last, above? n start = some last ∧ last.parent? = none ∧
        (last.components = [] ∨ last.components = [.root])) ∧
    ∀ start start' directory directory', start.isAbsolute = true → start'.isAbsolute = true →
      find tree start = .ok directory → find tree start' = .ok directory' →
      directory.components = directory'.components →
      (load tree directory).toOption.map (·.resolve directory) =
        (load tree directory').toOption.map (·.resolve directory') ∧
      ∀ config, load tree directory = .ok config → (config.resolve directory).IsNormal := by
  refine ⟨fun start => ⟨fun directory => find_eq_ok_iff, fun e => find_eq_error_iff,
    fun n directory => components_of_above?, ?_⟩, ?_⟩
  · obtain ⟨n, last, habove, hlast⟩ := exists_above?_last start
    exact ⟨n, last, habove, hlast, parent?_eq_none_iff.1 hlast⟩
  · intro start start' directory directory' hstart hstart' hfind hfind' hsame
    obtain ⟨-, -, hfile, -⟩ := find_eq_ok_iff.1 hfind
    obtain ⟨-, -, hfile', -⟩ := find_eq_ok_iff.1 hfind'
    refine ⟨?_, fun config _ => isNormal_resolve (isAbsolute_of_find hstart hfind) config⟩
    rw [load, load, FileTree.readText_eq_of_same (same_filePath hsame) hfile hfile']
    cases tree.readText (filePath directory') with
    | error e => rfl
    | ok text => exact congrArg (Option.map · _) (funext (resolve_eq_of_same hsame))

/-- A project with a directory in it. -/
def nested : FileTree where
  entries := [
    ([Utf8.encode "p".toList], .directory),
    ([Utf8.encode "sub".toList, Utf8.encode "p".toList], .directory),
    ([Utf8.encode "pchd.toml".toList, Utf8.encode "p".toList],
      .file (Utf8.encode "[compiler]\npath='c'\n[[project_parts]]\nid='a'\n".toList))]
  here := []

/-- The directory of the project is found under two texts, and what is found comes to the same. -/
theorem nearest_is_found_nested :
    find nested (.ofString "/p//sub/") = .ok (.ofString "/p") ∧
    find nested (.ofString "/./p/sub") = .ok (.ofString "/./p") ∧
    (load nested (.ofString "/p")).toOption.isSome = true ∧
    (load nested (.ofString "/p")).toOption.map (·.resolve (.ofString "/p")) =
      (load nested (.ofString "/./p")).toOption.map (·.resolve (.ofString "/./p")) := by
  have hfind : find nested (.ofString "/p//sub/") = .ok (.ofString "/p") := by
    refine find_eq_ok_iff.2 ⟨1, by decide +kernel, by decide +kernel, fun m hm other hother => ?_⟩
    obtain rfl := Nat.lt_one_iff.1 hm
    cases hother
    decide +kernel
  have hfind' : find nested (.ofString "/./p/sub") = .ok (.ofString "/./p") := by
    refine find_eq_ok_iff.2 ⟨1, by decide +kernel, by decide +kernel, fun m hm other hother => ?_⟩
    obtain rfl := Nat.lt_one_iff.1 hm
    cases hother
    decide +kernel
  exact ⟨hfind, hfind', by decide +kernel,
    ((nearest_is_found nested).2 _ _ _ _ (by decide) (by decide) hfind hfind' (by decide +kernel)).1⟩

end Config

end PrecompiledHeaders
