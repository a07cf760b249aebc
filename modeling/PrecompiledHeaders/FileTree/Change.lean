import PrecompiledHeaders.FileTree.Access

/-!
# Changing file trees

Writing files, making directories and links, and removing entries. An operation that fails
leaves the tree as it was, apart from directories that were made on the way.
-/

namespace PrecompiledHeaders.FileTree

/-- Puts an entry at a location, in place of what stood there. -/
def set (tree : FileTree) (location : Location) (entry : Entry) : FileTree :=
  { tree with entries := (location, entry) :: tree.entries.filter (·.1 ≠ location) }

/-- A path without the slashes at its end. -/
def withoutSlashes (p : Path) : Path :=
  ⟨(p.bytes.reverse.dropWhile (· = Path.separator)).reverse⟩

/-- Writes a file. If there is none, it is made, in a directory that has to be there. What is written
    to a special file is lost. A path that ends with a slash names no file. -/
def write (tree : FileTree) (p : Path) (contents : Bytes) : Except FileError FileTree := do
  let bare := withoutSlashes p
  if bare ≠ p then
    let _ ← tree.place false (if bare.bytes = [] then p else bare)
    throw .isDirectory
  match ← tree.place true p with
  | .free directory name => .ok (tree.set (name :: directory) (.file contents))
  | .taken location =>
    match tree.entryAt location with
    | some .directory => .error .isDirectory
    | some (.special file) =>
      match file.unwritable with
      | some e => .error e
      | none => .ok tree
    | _ => .ok (tree.set location (.file contents))

/-- Puts a new entry at a free place. -/
def make (tree : FileTree) (p : Path) (entry : Entry) : Except FileError FileTree := do
  match ← tree.place false p with
  | .free directory name => .ok (tree.set (name :: directory) entry)
  | .taken _ => .error .exists

/-- Makes a directory. -/
def makeDirectory (tree : FileTree) (p : Path) : Except FileError FileTree :=
  if p.bytes = [] then .error .notFound
  else if (withoutSlashes p).bytes = [] then .error .exists
  else tree.make (withoutSlashes p) .directory

/-- Makes a directory and those above it, as far as they are not there. Along with an error comes
    the tree with what was made. -/
def makeDirectories (tree : FileTree) (p : Path) : Except FileError Unit × FileTree :=
  if p.components = [] then (.ok (), tree)
  else
    /- Makes the directory itself; it may be there already. -/
    let finish (tree : FileTree) : Except FileError Unit × FileTree :=
      match tree.makeDirectory p with
      | .ok tree => (.ok (), tree)
      | .error e => if tree.isDirectory p then (.ok (), tree) else (.error e, tree)
    match tree.makeDirectory p with
    | .error .notFound =>
      match _h : p.parent? with
      | none => (.error .notFound, tree)
      | some above =>
        match tree.makeDirectories above with
        | (.ok (), tree) => finish tree
        | failed => failed
    | _ => finish tree
termination_by p.bytes.length
decreasing_by exact Path.length_parent?_lt _h

/-- Makes a link. -/
def makeLink (tree : FileTree) (p target : Path) : Except FileError FileTree :=
  tree.make p (.link target)

/-- Removes an entry with everything below it. -/
def remove (tree : FileTree) (p : Path) : Except FileError FileTree := do
  match ← tree.place false p with
  | .free _ _ => .error .notFound
  | .taken location =>
    .ok { tree with entries := tree.entries.filter fun (l, _) => !location.isSuffixOf l }

end PrecompiledHeaders.FileTree
