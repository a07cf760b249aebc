import PrecompiledHeaders.FileTree.Basic
import PrecompiledHeaders.Hash.ContentHash
import PrecompiledHeaders.Path.Normal

/-!
# Looking into file trees

What stands at a path, the contents of files, and the *identity* of a file: the path of its
location, by which all paths that lead to the same file are recognised. A path whose location cannot be
found has its normal form for an identity: it leads nowhere, or so deep that the path of the location
is too long (`FileTree.canonical`).
-/

namespace PrecompiledHeaders.FileTree

/-- Whether a path leads to an entry. -/
def exists? (tree : FileTree) (p : Path) : Bool := (tree.find? p).isSome

/-- Whether a path leads to what passes for a file. -/
def isFile (tree : FileTree) (p : Path) : Bool := (tree.find? p).any Entry.isFile

/-- Whether a path leads to a directory. -/
def isDirectory (tree : FileTree) (p : Path) : Bool :=
  match tree.find? p with
  | some .directory => true
  | _ => false

/-- The contents of a file. -/
def read (tree : FileTree) (p : Path) : Except FileError Bytes := do
  match tree.entryAt (← tree.locate p) with
  | some entry => entry.read
  | none => .error .notFound

/-- The contents of a file that holds text. -/
def readText (tree : FileTree) (p : Path) : Except FileError (List Char) := do
  match Utf8.decode? (← tree.read p) with
  | some text => .ok text
  | none => .error .notText

/-- The hash of a file's contents. -/
def hash (tree : FileTree) (p : Path) : Except FileError ContentHash := do
  return .ofBytes (← tree.read p)

/-- The names of the entries in a directory. -/
def names (tree : FileTree) (directory : Location) : List Bytes :=
  tree.entries.filterMap fun (location, _) =>
    match location with
    | name :: above => if above = directory then some name else none
    | [] => none

/-! ### Identity -/

/-- Looks at the entry with a name in a directory by its whole path, which must not be too long. -/
def look (tree : FileTree) (location : Location) (name : Bytes) : Except FileError Entry :=
  if pathLimit ≤ (Location.path (name :: location)).bytes.length then .error .nameTooLong
  else if tree.entryAt location ≠ some .directory then .error .notDirectory
  else if nameLimit < name.length then .error .nameTooLong
  else match tree.entryAt (name :: location) with
    | none => .error .notFound
    | some entry => .ok entry

/-- Whether names ask for a directory in front of them: they lead up, or say nothing to the end. -/
def asksForDirectory (names : List Bytes) : Bool :=
  match names.dropWhile fun name => name = [] ∨ name = Path.dot with
  | [] => names ≠ []
  | name :: _ => name = Path.dotDot

/-- Finds the location to which names lead from another, where each entry on the way is looked at by
    its whole path; and with a slash behind that, if what follows asks for a directory. What lies
    behind a link is left to `jump`. -/
def resolveStep (tree : FileTree) (jump : Location → List Bytes → Except FileError Location)
    (location : Location) : List Bytes → Except FileError Location
  | [] => .ok location
  | name :: rest =>
    if name = [] ∨ name = Path.dot then
      if tree.entryAt location = some .directory then resolveStep tree jump location rest
      else .error .notDirectory
    else if name = Path.dotDot then
      if tree.entryAt location = some .directory then resolveStep tree jump location.tail rest
      else .error .notDirectory
    else match tree.look location name with
      | .error e => .error e
      | .ok (.link target) =>
        jump (if target.isAbsolute then [] else location) (target.segments ++ rest)
      | .ok _ =>
        if asksForDirectory rest ∧
            pathLimit ≤ (Location.path (name :: location)).bytes.length + 1 then
          .error .nameTooLong
        else resolveStep tree jump (name :: location) rest

/-- Finds the location to which names lead from another, over at most the given number of links. -/
def resolve (tree : FileTree) : (links : Nat) → Location → List Bytes → Except FileError Location
  | 0 => tree.resolveStep fun _ _ => .error .tooManyLinks
  | links + 1 => tree.resolveStep (tree.resolve links)

/-- The path of the location that a path leads to. The path itself may be longer than others may be,
    but the paths of what is on its way may not. -/
def canonical (tree : FileTree) (p : Path) : Except FileError Path :=
  if p.bytes.contains 0 then .error .zeroByte
  else if p.bytes = [] then .error .notFound
  else (tree.resolve linkLimit (if p.isAbsolute then [] else tree.here) p.segments).map Location.path

/-- What tells a file from others: the path of its location, or, if that cannot be found, the normal
    form of its path. -/
def identity (tree : FileTree) (p : Path) : Path :=
  match tree.canonical p with
  | .ok canonical => canonical
  | .error _ => p.normalize

end PrecompiledHeaders.FileTree
