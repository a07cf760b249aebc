import PrecompiledHeaders.Path.Basic

/-!
# File trees

A file tree says what stands at each *location*: a file with its contents, a directory, a
symbolic link, or a special file, which does not hold what is written to it. A location is the list
of names that lead to it from the root. Paths are followed name by name (`FileTree.follow`),
relative ones from the current directory; a link on the way is replaced by what it points to, but
only so many times (`linkLimit`), as links may lead in circles. What a path leads to is a `Place`:
an entry, or a free name in a directory, where an entry could be made. Operations refuse paths that
are too long (`FileTree.place`), though they can be followed (`FileTree.trace`).

Following is structurally recursive: along the path as long as there is no link (`step`), and
then on the number of links that may still be followed.
-/

namespace PrecompiledHeaders

/-- The names that lead from the root to an entry, the last one first. -/
abbrev Location := List Bytes

/-- The path of a location. -/
def Location.path (location : Location) : Path :=
  match location with
  | [] => Path.root
  | names => ⟨names.reverse.flatMap fun name => Path.separator :: name⟩

/-- Why something cannot be done with a path. -/
inductive FileError
  /-- There is no such entry. -/
  | notFound
  /-- A file may not be read, not be written or not be run. -/
  | permissionDenied
  /-- There is an entry already. -/
  | exists
  /-- Something on the way, or at its end, is no directory. -/
  | notDirectory
  /-- The entry is a directory. -/
  | isDirectory
  /-- A name or the path is too long. -/
  | nameTooLong
  /-- There are too many links on the way. -/
  | tooManyLinks
  /-- There is a zero byte in the path. -/
  | zeroByte
  /-- The contents are no text. -/
  | notText
deriving DecidableEq, Repr, Inhabited

namespace FileError

/-- What is wrong, in words. -/
def reason : FileError → String
  | .notFound => "No such file or directory"
  | .permissionDenied => "Permission denied"
  | .exists => "File exists"
  | .notDirectory => "Not a directory"
  | .isDirectory => "Is a directory"
  | .nameTooLong => "File name too long"
  | .tooManyLinks => "Too many levels of symbolic links"
  | .zeroByte => "file name contained an unexpected NUL byte"
  | .notText => "stream did not contain valid UTF-8"

/-- The number that the operating system has for the error, if the error comes from there. -/
def number? : FileError → Option Nat
  | .notFound => some 2
  | .permissionDenied => some 13
  | .exists => some 17
  | .notDirectory => some 20
  | .isDirectory => some 21
  | .nameTooLong => some 36
  | .tooManyLinks => some 40
  | .zeroByte | .notText => none

/-- The text of the error. -/
def message (e : FileError) : String :=
  match e.number? with
  | some number => s!"{e.reason} (os error {number})"
  | none => e.reason

end FileError

/-- A file that does not hold what is written to it, as devices do not, or that may not be read or
    written. What there is to be read is the same at all times, and what is written is lost. -/
structure SpecialFile where
  /-- Whether it passes for a file. -/
  isFile : Bool
  /-- What is read, if it can be. -/
  contents : Bytes
  /-- Why it cannot be read. -/
  unreadable : Option FileError
  /-- Why it cannot be written. -/
  unwritable : Option FileError
deriving DecidableEq, Repr, Inhabited

namespace SpecialFile

/-- The device that holds nothing. -/
def null : SpecialFile := ⟨false, [], none, none⟩

/-- Reads a special file. -/
def read (file : SpecialFile) : Except FileError Bytes :=
  match file.unreadable with
  | some e => .error e
  | none => .ok file.contents

end SpecialFile

/-- What stands at a location. -/
inductive Entry
  /-- A file with its contents. -/
  | file (contents : Bytes)
  /-- A directory. -/
  | directory
  /-- A symbolic link. -/
  | link (target : Path)
  /-- A special file. -/
  | special (file : SpecialFile)
deriving DecidableEq, Repr, Inhabited

namespace Entry

/-- Whether an entry passes for a file. -/
def isFile : Entry → Bool
  | .file _ => true
  | .special f => f.isFile
  | .directory | .link _ => false

/-- Reads an entry. -/
def read : Entry → Except FileError Bytes
  | .file contents => .ok contents
  | .special f => f.read
  | .directory => .error .isDirectory
  | .link _ => .error .notFound

end Entry

/-- Files, directories and links, and a current directory. -/
structure FileTree where
  /-- What stands at the locations other than the root, which is always a directory. -/
  entries : List (Location × Entry)
  /-- The current directory. -/
  here : Location
deriving Inhabited

/-- What a path leads to. -/
inductive Place
  /-- The entry at a location. -/
  | taken (location : Location)
  /-- A name in a directory, with no entry. -/
  | free (directory : Location) (name : Bytes)
deriving DecidableEq, Repr

/-- The location of a place, if there is an entry. -/
def Place.location : Place → Except FileError Location
  | taken location => .ok location
  | free _ _ => .error .notFound

namespace FileTree

/-- What stands at a location. -/
def entryAt (tree : FileTree) : Location → Option Entry
  | [] => some .directory
  | location => tree.entries.lookup location

/-- How many links may be followed on the way of one path. -/
def linkLimit : Nat := 40

/-- The greatest length of a name. -/
def nameLimit : Nat := 255

/-- The length that paths have to stay below. -/
def pathLimit : Nat := 4096

/-- Follows the names of a path from a location. Only a directory has anything below it, even if
    that is itself. With `last`, a link at the very end is followed too. What lies behind a link
    is left to `jump`. -/
def step (tree : FileTree) (last : Bool) (jump : Location → List Bytes → Except FileError Place)
    (location : Location) : List Bytes → Except FileError Place
  | [] => .ok (.taken location)
  | name :: rest =>
    if tree.entryAt location ≠ some .directory then .error .notDirectory
    else if name = [] ∨ name = Path.dot then step tree last jump location rest
    else if name = Path.dotDot then step tree last jump location.tail rest
    else if nameLimit < name.length then .error .nameTooLong
    else match tree.entryAt (name :: location) with
      | none => if rest = [] then .ok (.free location name) else .error .notFound
      | some (.link target) =>
        if rest = [] ∧ !last then .ok (.taken (name :: location))
        else jump (if target.isAbsolute then [] else location) (target.segments ++ rest)
      | some _ => step tree last jump (name :: location) rest

/-- Follows the names of a path from a location, over at most the given number of links. -/
def follow (tree : FileTree) (last : Bool) :
    (links : Nat) → Location → List Bytes → Except FileError Place
  | 0 => tree.step last fun _ _ => .error .tooManyLinks
  | links + 1 => tree.step last (tree.follow last links)

/-- What a path leads to, however long it is. -/
def trace (tree : FileTree) (last : Bool) (p : Path) : Except FileError Place :=
  if p.bytes.contains 0 then .error .zeroByte
  else if p.bytes = [] then .error .notFound
  else tree.follow last linkLimit (if p.isAbsolute then [] else tree.here) p.segments

/-- What a path leads to that is not too long. -/
def place (tree : FileTree) (last : Bool) (p : Path) : Except FileError Place :=
  if p.bytes.contains 0 then .error .zeroByte
  else if pathLimit ≤ p.bytes.length then .error .nameTooLong
  else tree.trace last p

/-- The location of the entry that a path leads to. -/
def locate (tree : FileTree) (p : Path) : Except FileError Location := do
  (← tree.place true p).location

/-- The entry that a path leads to. -/
def find? (tree : FileTree) (p : Path) : Option Entry :=
  match tree.locate p with
  | .error _ => none
  | .ok location => tree.entryAt location

end FileTree

end PrecompiledHeaders
