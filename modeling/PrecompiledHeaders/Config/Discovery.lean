import PrecompiledHeaders.Config.Basic
import PrecompiledHeaders.FileTree.Access

/-!
# Finding configurations

The configuration of a project is the file `pchd.toml` in the nearest directory around the place
where the program is started.
-/

namespace PrecompiledHeaders.Config

/-- The path of the configuration file in a directory. -/
def filePath (directory : Path) : Path := directory.child "pchd.toml"

/-- The nearest directory with a configuration file: the given one, or one above it. -/
def find (tree : FileTree) (start : Path) : Except ConfigError Path :=
  match start.ancestors.find? fun directory => tree.isFile (filePath directory) with
  | some directory => .ok directory
  | none => .error (.notFound start)

/-- The configuration in a directory. -/
def load (tree : FileTree) (directory : Path) : Except ConfigError Config :=
  match tree.readText (filePath directory) with
  | .error e => .error (.unreadable (filePath directory) e.message)
  | .ok text => ofText text

end PrecompiledHeaders.Config
