import PrecompiledHeaders.Proofs.FileTree.Resolving

/-!
# Trees without links

In a tree without symbolic links a path leads where its pieces say (`trace_spot`). So the identity
of what an absolute path leads to is the normal form of the path (`identity_of_isAbsolute`), whether
there is something or not.
-/

namespace PrecompiledHeaders

/-- The location of a place, whether there is an entry or not. -/
def Place.spot : Place → Location
  | taken location => location
  | free directory name => name :: directory

namespace FileTree

open PrecompiledHeaders.Path

variable {tree : FileTree} {last : Bool} {links : Nat} {location : Location} {names : List Bytes}
  {place : Place} {p : Path}

/-- Whether there are no links in a tree. -/
def IsPlain (tree : FileTree) : Prop :=
  ∀ location target, tree.entryAt location ≠ some (.link target)

theorem isPlain_of_entries (h : ∀ entry ∈ tree.entries, ∀ target, entry.2 ≠ .link target) :
    tree.IsPlain := by
  intro location target hlink
  cases location with
  | nil => cases hlink
  | cons name above => exact h _ (mem_entries (List.cons_ne_nil name above) hlink) target rfl

/-- Pieces lead where they say. -/
theorem Goes.spot (h : tree.IsPlain) (hgoes : tree.Goes last links location names place) :
    place.spot = names.foldl Location.descend location := by
  induction hgoes with
  | here => rfl
  | stay _ hskip _ ih => rw [List.foldl_cons, Location.descend, if_pos hskip, ih]
  | up _ _ ih =>
    rw [ih]
    rfl
  | free _ henters =>
    rw [List.foldl_cons, henters.descend]
    rfl
  | link _ _ _ hlink | jump _ hlink => exact absurd hlink (h _ _)
  | down henters _ _ _ ih => rw [List.foldl_cons, henters.descend, ih]

theorem trace_spot (h : tree.IsPlain) (hp : p.isAbsolute)
    (ht : tree.trace last p = .ok place) : place.spot = p.location := by
  obtain ⟨-, -, hgoes⟩ := trace_eq_ok_iff.1 ht
  rw [origin, if_pos hp] at hgoes
  exact hgoes.spot h

/-- The identity of what an absolute path leads to is the normal form of the path. -/
theorem identity_of_isAbsolute (h : tree.IsPlain) (hp : p.isAbsolute) :
    tree.identity p = p.normalize := by
  unfold identity
  cases hcanonical : tree.canonical p with
  | error e => rfl
  | ok canon =>
    obtain ⟨location, htrace, rfl⟩ := exists_trace_of_canonical hcanonical
    have hspot : location = p.location := trace_spot h hp htrace
    rw [normalize_eq_path hp, ← hspot]

theorem identity_of_isNormal (h : tree.IsPlain) (hp : p.IsNormal) : tree.identity p = p := by
  rw [identity_of_isAbsolute h hp.isAbsolute, hp.normalize_eq]

end FileTree

end PrecompiledHeaders
