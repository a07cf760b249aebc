import PrecompiledHeaders.Program.Session
import PrecompiledHeaders.Proofs.FileTree.Making
import PrecompiledHeaders.Proofs.Generation.Preview

/-!
# Accepted sessions

A session starts from a configuration that was accepted, and has its paths taken from an absolute
directory (`Session.isAccepted_of_start`). So its directories are absolute, its parts have different
names, and a part is found under its name (`Session.IsAccepted.part_id`). On any file tree its
generator is one that has not begun (`Session.IsAccepted.isReady`).
-/

namespace Except

variable {ε ε' α β : Type} {x : Except ε α} {a : α}

theorem exists_of_bind_eq_ok {f : α → Except ε β} {b : β} (h : x >>= f = .ok b) :
    ∃ a, x = .ok a ∧ f a = .ok b := by
  cases x with
  | error e => cases h
  | ok a => exact ⟨a, rfl, h⟩

theorem eq_ok_of_mapError {f : ε → ε'} (h : x.mapError f = .ok a) : x = .ok a := by
  cases x with
  | error e => cases h
  | ok b =>
    cases h
    rfl

end Except

namespace PrecompiledHeaders

/-! ### Names of parts -/

namespace Config

variable {config : Config} {seen : List String} {parts : List ProjectPart}

theorem checkParts_cons_eq_ok {part : ProjectPart} (h : checkParts seen (part :: parts) = .ok ()) :
    part.id ∉ seen ∧ checkParts (part.id :: seen) parts = .ok () := by
  simp only [checkParts] at h
  split at h
  · cases h
  split at h
  · cases h
  next hnew => exact ⟨hnew, h⟩

/-- The names of checked parts are none of those used before. -/
theorem not_mem_of_checkParts (h : checkParts seen parts = .ok ()) :
    ∀ part ∈ parts, part.id ∉ seen := by
  induction parts generalizing seen with
  | nil => simp
  | cons first rest ih =>
    obtain ⟨hnew, hrest⟩ := checkParts_cons_eq_ok h
    intro part hpart hseen
    rcases List.mem_cons.1 hpart with rfl | hpart
    · exact hnew hseen
    · exact ih hrest part hpart (List.mem_cons_of_mem _ hseen)

/-- A checked part is found under its name. -/
theorem find?_of_checkParts (h : checkParts seen parts = .ok ()) {part : ProjectPart}
    (hmem : part ∈ parts) : parts.find? (fun other => other.id = part.id) = some part := by
  induction parts generalizing seen with
  | nil => cases hmem
  | cons first rest ih =>
    obtain ⟨-, hrest⟩ := checkParts_cons_eq_ok h
    rcases List.mem_cons.1 hmem with rfl | hmem
    · rw [List.find?_cons_of_pos (by simp)]
    · have hne : first.id ≠ part.id := fun heq =>
        not_mem_of_checkParts hrest part hmem (heq ▸ List.mem_cons_self)
      rw [List.find?_cons_of_neg (by simpa using hne)]
      exact ih hrest hmem

theorem checkParts_map_resolvePart (directory : Path) (seen : List String)
    (parts : List ProjectPart) :
    checkParts seen (parts.map (resolvePart directory)) = checkParts seen parts := by
  induction parts generalizing seen with
  | nil => rfl
  | cons part rest ih => simp only [List.map_cons, checkParts, resolvePart, ih]

theorem checkParts_of_validate (h : config.validate = .ok ()) :
    checkParts [] config.parts = .ok () := by
  simp only [validate] at h
  split at h
  · cases h
  split at h
  · cases h
  split at h
  · cases h
  · exact h

theorem validate_of_ofText {text : List Char} (h : ofText text = .ok config) :
    config.validate = .ok () := by
  simp only [ofText] at h
  split at h
  · cases h
  next read _ =>
  cases hvalid : read.validate with
  | error e =>
    rw [hvalid] at h
    cases h
  | ok =>
    rw [hvalid] at h
    cases h
    exact hvalid

theorem validate_of_load {tree : FileTree} {directory : Path}
    (h : load tree directory = .ok config) : config.validate = .ok () := by
  simp only [load] at h
  split at h
  · cases h
  · exact validate_of_ofText h

end Config

/-! ### Sessions -/

namespace Path

theorem isAbsolute_of_mem_ancestors {p q : Path} (hp : p.isAbsolute = true)
    (h : q ∈ p.ancestors) : q.isAbsolute = true := by
  induction p using ancestors.induct with
  | case1 p ih =>
    rw [ancestors, List.mem_cons] at h
    rcases h with rfl | h
    · exact hp
    · split at h
      · cases h
      next above hparent =>
        exact ih above hparent (FileTree.isAbsolute_of_parent? hp hparent) h

end Path

namespace Program.Session

variable {session : Session} {tree : FileTree} {part : ProjectPart}

/-- Whether a session has a configuration that was accepted, with the paths in it taken from an
    absolute directory. -/
def IsAccepted (session : Session) : Prop :=
  ∃ (config : Config) (directory : Path), config.validate = .ok () ∧
    directory.isAbsolute = true ∧ session.config = config.resolve directory

theorem isAbsolute_of_canonical {p canonical : Path} (h : tree.canonical p = .ok canonical) :
    canonical.isAbsolute = true := by
  obtain ⟨-, -, found, -, rfl⟩ := FileTree.canonical_eq_ok_iff.1 h
  exact Location.isAbsolute_path found

/-- The configuration that is found was accepted, and its directory is absolute. -/
theorem accepted_of_findConfig {path : Option Path} {directory : Path} {config : Config}
    (h : findConfig tree path = .ok (directory, config)) :
    config.validate = .ok () ∧ directory.isAbsolute = true := by
  cases path with
  | none =>
    obtain ⟨found, hfound, h⟩ := Except.exists_of_bind_eq_ok h
    obtain ⟨loaded, hloaded, h⟩ := Except.exists_of_bind_eq_ok h
    cases h
    refine ⟨Config.validate_of_load (Except.eq_ok_of_mapError hloaded), ?_⟩
    have hfind := Except.eq_ok_of_mapError hfound
    simp only [Config.find] at hfind
    split at hfind
    next hmem =>
      cases hfind
      exact Path.isAbsolute_of_mem_ancestors (Location.isAbsolute_path _)
        (List.mem_of_find?_eq_some hmem)
    · cases hfind
  | some path =>
    simp only [findConfig] at h
    split at h
    · obtain ⟨found, hfound, h⟩ := Except.exists_of_bind_eq_ok h
      obtain ⟨text, -, h⟩ := Except.exists_of_bind_eq_ok h
      obtain ⟨read, hread, h⟩ := Except.exists_of_bind_eq_ok h
      cases h
      exact ⟨Config.validate_of_ofText (Except.eq_ok_of_mapError hread),
        isAbsolute_of_canonical (Except.eq_ok_of_mapError hfound)⟩
    · obtain ⟨found, hfound, h⟩ := Except.exists_of_bind_eq_ok h
      obtain ⟨loaded, hloaded, h⟩ := Except.exists_of_bind_eq_ok h
      cases h
      exact ⟨Config.validate_of_load (Except.eq_ok_of_mapError hloaded),
        isAbsolute_of_canonical (Except.eq_ok_of_mapError hfound)⟩

theorem isAccepted_of_start {frontends : Registry} {path : Option Path}
    (h : start frontends tree path = .ok session) : session.IsAccepted := by
  obtain ⟨⟨directory, config⟩, hfound, h⟩ := Except.exists_of_bind_eq_ok h
  obtain ⟨frontend, -, h⟩ := Except.exists_of_bind_eq_ok h
  cases h
  obtain ⟨hvalid, hdirectory⟩ := accepted_of_findConfig hfound
  exact ⟨config, directory, hvalid, hdirectory, rfl⟩

namespace IsAccepted

theorem isAbsolute_workingDirectory (h : session.IsAccepted) :
    session.config.workingDirectory.isAbsolute = true := by
  obtain ⟨config, directory, -, hdirectory, heq⟩ := h
  rw [heq]
  exact (Path.isNormal_normalizeFrom hdirectory _).isAbsolute

theorem isAbsolute_outputDirectory (h : session.IsAccepted) :
    session.config.outputDirectory.isAbsolute = true := by
  obtain ⟨config, directory, -, hdirectory, heq⟩ := h
  rw [heq]
  exact (Path.isNormal_normalizeFrom hdirectory _).isAbsolute

/-- A part is found under its name. -/
theorem part_id (h : session.IsAccepted) (tree : FileTree) (hpart : part ∈ session.config.parts) :
    (session.generator tree).part part.id = .ok part := by
  obtain ⟨config, directory, hvalid, -, heq⟩ := h
  have hchecked : Config.checkParts [] session.config.parts = .ok () := by
    rw [heq]
    exact (Config.checkParts_map_resolvePart directory [] config.parts).trans
      (Config.checkParts_of_validate hvalid)
  have hfind : (session.generator tree).parts.find? (fun other => other.id = part.id) = some part :=
    Config.find?_of_checkParts hchecked hpart
  simp only [Generator.part, hfind]

theorem isReady (h : session.IsAccepted) (hscan : session.frontend = .scan) (htree : tree.IsTree) :
    (session.generator tree).IsReady :=
  ⟨hscan, h.isAbsolute_workingDirectory, h.isAbsolute_outputDirectory, htree, rfl⟩

end IsAccepted

end Program.Session

end PrecompiledHeaders
