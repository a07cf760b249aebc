import PrecompiledHeaders.Proofs.FileTree.Growth

/-!
# Where a file is written

Writing to a path changes nothing but the file that the path leads to then, also if the way there goes
over links (`FileTree.write_differsAt`). What is written to a special file changes nothing at all.
-/

namespace PrecompiledHeaders.FileTree

open PrecompiledHeaders.Path

variable {tree after : FileTree} {place : Place} {p : Path} {contents : Bytes}

/-- Whether a tree has turned into another one without a change to anything but what a path leads to
    in the other one. -/
structure DiffersAt (p : Path) (tree after : FileTree) : Prop where
  here : after.here = tree.here
  leads : ∃ location, after.locate p = .ok location ∧
    ∀ other, other ≠ location → after.entryAt other = tree.entryAt other

/-- Elsewhere nothing has changed. -/
theorem entryAt_of_write (hplace : tree.place true p = .ok place)
    (h : tree.write p contents = .ok after) {other : Location} (hother : other ≠ place.spot) :
    after.entryAt other = tree.entryAt other := by
  obtain ⟨place', hplace', hwrite⟩ := exists_place_of_write h
  cases hplace.symm.trans hplace'
  cases place with
  | free directory name =>
    rw [hwrite, tree.entryAt_set (List.cons_ne_nil name directory)]
    exact if_neg hother
  | taken location =>
    obtain ⟨hdirectory, ⟨_, -, -, rfl⟩ | ⟨-, rfl⟩⟩ := hwrite
    · rfl
    · have hne : location ≠ [] := fun hroot => hdirectory (hroot ▸ rfl)
      rw [tree.entryAt_set hne]
      exact if_neg hother

theorem write_differsAt (htree : tree.IsTree) (h : tree.write p contents = .ok after) :
    DiffersAt p tree after := by
  have hgrows := write_grows htree h
  obtain ⟨place, hplace, -⟩ := exists_place_of_write h
  refine ⟨hgrows.here, place.spot, ?_, fun other => entryAt_of_write hplace h⟩
  rw [locate, hgrows.place_eq (fills_of_write hplace h) hplace]
  rfl

end PrecompiledHeaders.FileTree
