import PrecompiledHeaders.Path.Basic

/-!
# Normal paths

Normalisation is lexical: it looks at the path alone, never at a file tree. It drops `.`, lets
`..` cancel the name before it, and drops a `..` directly under the root. What is left is an
optional root, for relative paths some `..`, and then names (`Path.normalize`).
-/

namespace PrecompiledHeaders.Path

/-- Adds a component to a normal path, held with its last component first. -/
def fold : List Component → Component → List Component
  | stack, .current => stack
  | .name _ :: below, .parent => below
  | .root :: below, .parent => .root :: below
  | stack, component => component :: stack

/-- The path that is written with the components, one slash between each two. -/
def ofComponents : List Component → Path
  | [.root] => root
  | components => ⟨PrecompiledHeaders.join separator (components.map Component.bytes)⟩

/-- The normal form of a path. -/
def normalize (p : Path) : Path :=
  ofComponents (p.components.foldl fold []).reverse

/-- The normal form of a path that, if it is relative, is taken from the directory `base`. -/
def normalizeFrom (base p : Path) : Path :=
  normalize (base.join p)

theorem normalizeFrom_of_isAbsolute {base p : Path} (h : p.isAbsolute) :
    normalizeFrom base p = normalize p := by
  simp [normalizeFrom, join, h]

end PrecompiledHeaders.Path
