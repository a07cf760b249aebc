import PrecompiledHeaders.FileTree.Access
import PrecompiledHeaders.Shell.Pattern
import PrecompiledHeaders.Text.Split

/-!
# Names of files

A word with a pattern in it stands for the paths that it matches. The word is taken name by name,
as a path is: what is no pattern is kept as it is, and a pattern stands for the entries of the
directory that the names in front of it lead to. Names that start with a dot are matched only by
patterns that start with one.
-/

namespace PrecompiledHeaders.Shell

namespace FileNames

/-- Whether there is something at a path, if only a link that leads nowhere. -/
def isThere (tree : FileTree) (p : List Char) : Bool :=
  match tree.place false (pathOf p) with
  | .ok (.taken _) => true
  | _ => false

/-- The names in a directory, with those of the directory itself and of the one above. -/
def inDirectory (tree : FileTree) (directory : List Char) : List (List Char) :=
  match tree.locate (pathOf directory) with
  | .error _ => []
  | .ok location =>
    if tree.entryAt location = some .directory then
      ['.'] :: ['.', '.'] :: (tree.names location).map ofBytes
    else []

/-- The names in a directory that a pattern matches. -/
def matching (tree : FileTree) (directory : List Char) (pattern : List Mark) :
    List (List Char) :=
  let parts := Matcher.ofResolved pattern
  let hidden := pattern.head?.any (·.char = '.')
  (inDirectory tree directory).filter fun name =>
    (hidden || name.head? ≠ some '.') && Matcher.accepts parts name

/-- The paths that start with the given text and go on with names, some of which are patterns. -/
def behind (tree : FileTree) (above : List Char) : List (List Mark) → List (List Char)
  | [] => []
  | [last] =>
    if isPattern last then
      (matching tree (if above = [] then ['.'] else above) last).map (above ++ ·)
    else
      let p := above ++ characters last
      if isThere tree p then [p] else []
  | name :: rest =>
    if isPattern name then
      (matching tree (if above = [] then ['.'] else above) name).flatMap fun n =>
        behind tree (above ++ n ++ ['/']) rest
    else behind tree (above ++ characters name ++ ['/']) rest

/-- The paths that a word stands for, in ascending order; none if it has no pattern in it, or if
    there are none. -/
def ofWord (tree : FileTree) (word : List Mark) : List (List Char) :=
  let slash : Mark := ⟨'/', true⟩
  let names := split slash ((Matcher.resolve word).map fun m => if m.char = '/' then slash else m)
  if names.any isPattern then
    (behind tree [] names).mergeSort fun p q => !(q < p)
  else []

end FileNames

end PrecompiledHeaders.Shell
