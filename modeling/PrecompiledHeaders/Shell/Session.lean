import PrecompiledHeaders.FileTree.Change
import PrecompiledHeaders.Shell.Syntax
import PrecompiledHeaders.Shell.Text

/-!
# Running shells

What a running shell works on (`Session`), and how a step of it may end early (`Run`). Commands
read and write by descriptors, numbers that are tied to open files (`Streams`); several of them
may be tied to one open file, which they then use from one place on. What goes to the stream
for complaints of the whole shell is kept, its ordinary output is dropped.
-/

namespace PrecompiledHeaders.Shell

/-- Where what is written to an open file goes, and where what is read from it comes from. -/
inductive Channel
  /-- Nowhere: nothing can be read, and what is written is lost. -/
  | null
  /-- The stream for complaints of the shell. -/
  | complaints
  /-- A file of the tree. -/
  | file (location : Location)
  /-- What is on its way between commands, the last texts first. -/
  | pipe (texts : List (List Char))

/-- An open file. -/
structure OpenFile where
  /-- What it is. -/
  channel : Channel
  /-- Whether it can be read. -/
  readable : Bool
  /-- Whether it can be written. -/
  writable : Bool
  /-- Whether it is always written behind what it holds. -/
  appends : Bool := false
  /-- The place from which on it is read or written. -/
  offset : Nat := 0

/-- The descriptors of a command, each with the number of the open file it is tied to. -/
abbrev Streams := List (Nat × Nat)

namespace Streams

/-- Ties a descriptor to an open file. -/
def tie (streams : Streams) (descriptor file : Nat) : Streams :=
  (descriptor, file) :: streams.filter (·.1 ≠ descriptor)

/-- Ties a descriptor to nothing. -/
def close (streams : Streams) (descriptor : Nat) : Streams :=
  streams.filter (·.1 ≠ descriptor)

/-- The descriptors of the shell itself: nothing to be read, output that is dropped, complaints. -/
def initial : Streams := [(0, 0), (1, 1), (2, 2)]

end Streams

/-- What a shell was asked to do beyond running a script. -/
structure Options where
  /-- Whether it ends with the first command that fails. -/
  exitsOnFailure : Bool := false
  /-- Whether patterns stand for themselves in words. -/
  noNames : Bool := false
  /-- Whether commands are only read. -/
  noRun : Bool := false
  /-- Whether parameters without values are errors. -/
  needsValues : Bool := false
  /-- Whether it writes the lines that it reads. -/
  showsLines : Bool := false
  /-- Whether it writes the commands that it runs. -/
  showsCommands : Bool := false
  /-- Whether files that are there are not written anew. -/
  keepsFiles : Bool := false
deriving DecidableEq, Repr

/-- What a running shell works on. -/
structure Session where
  /-- The files; the current directory is that of the shell. -/
  tree : FileTree
  /-- The arguments. -/
  arguments : List (List Char)
  /-- The name of the script. -/
  name : List Char
  /-- What it was asked to do. -/
  options : Options
  /-- The variables. -/
  bindings : List (List Char × List Char)
  /-- The open files. -/
  files : Array OpenFile :=
    #[⟨.null, true, false, false, 0⟩, ⟨.null, false, true, false, 0⟩,
      ⟨.complaints, false, true, false, 0⟩]
  /-- The texts in the script, under their numbers. -/
  documents : List (Nat × Word) := []
  /-- The code of the last command. -/
  status : Nat := 0
  /-- The code of the last command whose output was put into a word. -/
  outputStatus : Nat := 0
  /-- The line of the command that is run. -/
  line : Nat := 1
  /-- The line behind what was read of the script. -/
  readLine : Nat := 1
  /-- What was written to the stream for complaints, the last texts first. -/
  complaints : List (List Char) := []
  /-- Whether a copy of the shell has ended the shell. -/
  killed : Bool := false

/-- How a command ends the run before it is through. -/
inductive Ending
  /-- The shell ends with a code. -/
  | exit (code : Nat)
  /-- The shell is ended by a signal. -/
  | signal
  /-- Some loops end. -/
  | leave (loops : Nat)
  /-- Some loops end, and the next one goes on with the next word. -/
  | again (loops : Nat)
deriving DecidableEq, Repr

/-- A step of a running shell. -/
abbrev Run (α : Type) := ExceptT Ending (StateM Session) α

namespace Run

/-! ### Reading and writing -/

/-- The open file that a descriptor is tied to, and its number. -/
def file? (streams : Streams) (descriptor : Nat) : Run (Option (Nat × OpenFile)) := do
  let s ← get
  return do
    let number ← streams.lookup descriptor
    return (number, ← s.files[number]?)

/-- Opens a file; its number. -/
def openFile (file : OpenFile) : Run Nat := do
  let s ← get
  set { s with files := s.files.push file }
  return s.files.size

/-- Changes an open file. -/
def setFile (number : Nat) (file : OpenFile) : Run Unit :=
  modify fun s => { s with files := s.files.setIfInBounds number file }

/-- Contents with a text put over them from a place on. -/
def overwrite (contents text : Bytes) (offset : Nat) : Bytes :=
  contents.take offset ++ List.replicate (offset - contents.length) 0 ++ text ++
    contents.drop (offset + text.length)

/-- The contents of the file at a location. -/
def contentsAt (location : Location) : Run Bytes := do
  match (← get).tree.entryAt location with
  | some (.file contents) => return contents
  | some (.special file) => return file.contents
  | _ => return []

/-- Changes the contents of the file at a location. What is written to a special file is lost. -/
def setContents (location : Location) (contents : Bytes) : Run Unit :=
  modify fun s =>
    match s.tree.entryAt location with
    | some (.special _) => s
    | _ => { s with tree := s.tree.set location (.file contents) }

/-- Writes a text to a descriptor; whether that can be done. -/
def write (streams : Streams) (descriptor : Nat) (text : List Char) : Run Bool := do
  let some (number, file) ← file? streams descriptor | return text.isEmpty
  if !file.writable then return text.isEmpty
  match file.channel with
  | .null => return true
  | .complaints =>
    modify fun s => { s with complaints := text :: s.complaints }
    return true
  | .pipe texts =>
    setFile number { file with channel := .pipe (text :: texts) }
    return true
  | .file location =>
    let contents ← contentsAt location
    let offset := if file.appends then contents.length else file.offset
    setContents location (overwrite contents (toBytes text) offset)
    setFile number { file with offset := offset + text.length }
    return true

/-- Takes all that can be read from an open file. -/
def takeAll (number : Nat) (file : OpenFile) : Run (List Char) := do
  match file.channel with
  | .null | .complaints => return []
  | .pipe texts =>
    setFile number { file with channel := .pipe [] }
    return texts.reverse.flatten
  | .file location =>
    let contents ← contentsAt location
    setFile number { file with offset := max file.offset contents.length }
    return ofBytes (contents.drop file.offset)

/-- Complains about the command that is run. -/
def complain (streams : Streams) (text : List Char) : Run Unit := do
  let s ← get
  let _ ← write streams 2
    (s.name ++ ": ".toList ++ Nat.toDigits 10 s.line ++ ": ".toList ++ text ++ ['\n'])

/-- Complains, and ends the shell. -/
def fail {α : Type} (streams : Streams) (text : List Char) : Run α := do
  complain streams text
  throw (.exit 2)

/-- Sets the code of the last command. -/
def setStatus (status : Nat) : Run Unit := modify fun s => { s with status }

/-- Whether the last command has succeeded. -/
def succeeded : Run Bool := do
  return (← get).status = 0

/-! ### Variables -/

/-- Gives a variable a value. -/
def assign (name value : List Char) : Run Unit :=
  modify fun s => { s with bindings := (name, value) :: s.bindings.filter (·.1 ≠ name) }

end Run

end PrecompiledHeaders.Shell
